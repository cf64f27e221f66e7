import DronePilot.Document.Writer
import DronePilot.Event

/-!
# The detection service

A worker runs a detection network on pictures and reports what it found: for each object its name,
how sure the network is, and its box as parts of the picture, all with two places.  For a stream of
pictures the network tracks objects from picture to picture; changing between the two ways of working
loads the network anew.
-/

namespace DronePilot.Service

/-- What the network gives for one picture. -/
structure Finding where
  /-- The picture was classified as a whole. -/
  classified : Bool := false
  /-- A row for each object: the corners of its box, its track if there is one, how sure the network
  is, and the number of its class. -/
  rows : List (List Value) := []
  /-- The height and the width of the picture. -/
  height : Value := .int 100
  width : Value := .int 100
  /-- The names of the classes by number. -/
  names : List (String × String) := [("0", "person")]
  /-- The rows have tracks. -/
  tracked : Bool := false
  /-- For each object, the outline of its mask. -/
  masks : Option (List (List (Float × Float))) := none
  /-- For each object, its key points and how visible they are. -/
  keypoints : Option (List (List (Float × Float × Float))) := none
deriving Inhabited

/-- An element of a row by its position; negative positions count from the end. -/
def column (row : List Value) (i : Int) : Except Fault Value :=
  let j := if i < 0 then i + row.length else i
  if j < 0 then .error .noSuchPosition
  else
    match row[j.toNat]? with
    | some v => .ok v
    | none => .error .noSuchPosition

/-- A number rounded to two places. -/
def rounded (v : Value) : Except Fault Value :=
  match v with
  | .float x => .ok (.float (Decimal.roundTo 2 x))
  | .int n => .ok (.int n)
  | .bool b => .ok (.int (if b then 1 else 0))
  | .nothing | .text _ => .error .wrongKind

/-- A number as a part of a whole, rounded. -/
def share (v whole : Value) : Except Fault Value := do
  rounded (← Operator.div.apply v whole)

/-- The box of a row as parts of the picture. -/
def Finding.box (f : Finding) (row : List Value) : Except Fault Document := do
  let x1 ← share (← column row 0) f.width
  let y1 ← share (← column row 1) f.height
  let x2 ← share (← column row 2) f.width
  let y2 ← share (← column row 3) f.height
  pure (.dict [("x1", .value x1), ("y1", .value y1), ("x2", .value x2), ("y2", .value y2)])

/-- The name of a class. -/
def Finding.className (f : Finding) (number : Int) : Except Fault String :=
  match f.names.lookup (toString number) with
  | some name => .ok name
  | none => .error .noSuchKey

/-- The name that a report gives an object: that of its class, and its track if there is one. -/
def Finding.objectName (f : Finding) (row : List Value) (number : Int) : Except Fault String := do
  let name ← f.className number
  if f.tracked then
    let track ← (← column row (-3)).toWhole
    pure (name ++ "_" ++ toString track)
  else pure name

/-- A number divided as doubles are, without a fault. -/
def part (x : Float) (whole : Value) : Except Fault Document := do
  let n ← whole.toNumber
  let y ← n.toFloat
  pure (.float (x / y))

/-- Points as parts of the picture: the ones across, then the ones down. -/
def Finding.scale (f : Finding) (points : List (Float × Float)) :
    Except Fault (Document × Document) := do
  let xs ← points.mapM fun p => part p.1 f.width
  let ys ← points.mapM fun p => part p.2 f.height
  pure (.list xs, .list ys)

/-- The element that belongs to the `i`-th object. -/
def forObject {α : Type} (xs : List α) (i : Nat) : Except Fault α :=
  match xs[i]? with
  | some x => .ok x
  | none => .error .noSuchPosition

/-- The outline of the `i`-th object, if there are any. -/
def Finding.segments (f : Finding) (i : Nat) : Except Fault (List (String × Document)) :=
  match f.masks with
  | none | some [] => .ok []
  | some masks => do
    let points ← forObject masks i
    if points.isEmpty then throw .noSuchPosition
    let (xs, ys) ← f.scale points
    pure [("segments", .dict [("x", xs), ("y", ys)])]

/-- The key points of the `i`-th object, if there are any. -/
def Finding.keypointFields (f : Finding) (i : Nat) : Except Fault (List (String × Document)) :=
  match f.keypoints with
  | none => .ok []
  | some keypoints => do
    let points ← forObject keypoints i
    let (xs, ys) ← f.scale (points.map fun p => (p.1, p.2.1))
    let visible := Document.list (points.map fun p => .float p.2.2)
    pure [("keypoints", .dict [("x", xs), ("y", ys), ("visible", visible)])]

/-- The report on the `i`-th object. -/
def Finding.report (f : Finding) (i : Nat) (row : List Value) : Except Fault Document := do
  let box ← f.box row
  let conf ← column row (-2)
  let number ← (← column row (-1)).toWhole
  let name ← f.objectName row number
  let conf ← rounded conf
  let segments ← f.segments i
  let keypoints ← f.keypointFields i
  pure (.dict ([("name", .text name), ("confidence", .value conf), ("box", box)] ++ segments ++
    keypoints))

/-- The reports on the objects from the `i`-th on. -/
def Finding.reportsFrom (f : Finding) : Nat → List (List Value) → Except Fault (List Document)
  | _, [] => .ok []
  | i, row :: rest => do
    let d ← f.report i row
    let ds ← f.reportsFrom (i + 1) rest
    pure (d :: ds)

/-- What is reported on a picture.  A picture that was classified as a whole has no objects. -/
def Finding.format (f : Finding) : Except Fault Document :=
  if f.classified then .ok .null else Document.list <$> f.reportsFrom 0 f.rows

/-- A worker. -/
structure Worker where
  /-- The worker tracks objects. -/
  streaming : Bool := false
  /-- The network is loaded. -/
  loaded : Bool := true
  /-- There is a graphics processor. -/
  graphics : Bool := false
  /-- What the network gives, picture by picture. -/
  findings : Script Finding := { answers := [] }
  log : List Event := []

namespace Worker

/-- Records an event. -/
def record (w : Worker) (e : Event) : Worker :=
  { w with log := w.log ++ [e] }

/-- The file of the network. -/
def modelFile : String := "yolov8x.pt"

/-- The settings of the tracker. -/
def trackerFile : String := "bytetrack.yaml"

/-- Loads the network. -/
def load (w : Worker) : Worker :=
  let device := if w.graphics then "cuda:0" else "cpu"
  { (w.record { name := "YOLO", details := [.text modelFile] }).record
      { name := "to", details := [.text device] } with loaded := true }

/-- Loads the network anew. -/
def reload (w : Worker) : Worker :=
  (if w.loaded then w.record { name := "empty_cache" } else w).load

/-- Runs the network on a picture. -/
def runNetwork (w : Worker) (width height : Nat) (conf : Value) : Except Fault Finding × Worker :=
  if !w.loaded then
    (.error (if w.streaming then .noSuchPart else .wrongKind), w)
  else
    let size := Document.list [.int width, .int height]
    let event : Event :=
      if w.streaming then
        { name := "track", details := [size, .value conf, .text trackerFile] }
      else { name := "model", details := [size, .value conf] }
    (.ok (w.findings.current {}), { w.record event with findings := w.findings.advance })

/-- Detects what is on a picture of a given size; bytes that are no picture have none.  The answer is
the text of a report. -/
def detect (w : Worker) (stream : Bool) (size : Option (Nat × Nat)) (id : Document) (conf : Value) :
    Except Fault String × Worker :=
  let w := if w.streaming = stream then w else { w with streaming := stream }.reload
  match size with
  | none => (.error .unreadableImage, w)
  | some (width, height) =>
    match w.runNetwork width height conf with
    | (.error f, w) => (.error f, w)
    | (.ok finding, w) =>
      ((fun result => (Document.dict [("image_id", id), ("result", result)]).write) <$> finding.format,
        w)

end Worker

/-- What happens when a new worker serves at a port until the end. -/
def serve (graphics : Bool) (port : String) : List Event :=
  ({ graphics := graphics } : Worker).load.log ++
    [{ name := "add_servicer", details := [.text port] },
      { name := "add_insecure_port", details := [.text ("[::]:" ++ port)] },
      { name := "start" },
      { name := "wait_for_termination" }]

/-- The workers of a list of ports are started one after the other and then waited for; each does its
work when it is waited for. -/
def serveAll (graphics : Bool) (ports : List String) : List Event :=
  (ports.map fun port => { name := "process", details := [.text port] : Event }) ++
    ports.flatMap fun port =>
      { name := "join", details := [.text port] } :: serve graphics port

end DronePilot.Service
