import DronePilot.Vision.Box

/-!
# Sightings

A sighting is an object that the camera shows: its name, the middle of its box and its size.  A
detection is a sighting as the detection service reports it, a name and a box; its numbers have not
been made doubles yet.
-/

namespace DronePilot.Vision

/-- An object in the picture.  The name is whatever the detection service calls it. -/
structure Sighting where
  name : Document
  x : Float
  y : Float
  width : Float
  height : Float
deriving Repr, Inhabited

/-- A sighting from values that stand for doubles. -/
def Sighting.ofValues (name : Document) (x y width height : Value) : Except Fault Sighting := do
  let x ← x.toReal
  let y ← y.toReal
  let width ← width.toReal
  let height ← height.toReal
  pure { name := name, x := x, y := y, width := width, height := height }

/-- A sighting in words, with two places. -/
def Sighting.display (s : Sighting) : String :=
  s.name.display ++ " x:" ++ Decimal.fixed 2 s.x ++ " y:" ++ Decimal.fixed 2 s.y ++ " width:" ++
    Decimal.fixed 2 s.width ++ " height:" ++ Decimal.fixed 2 s.height

/-- Sightings in words, as a list of texts from which the single quotation marks are taken out. -/
def displaySightings (sightings : List Sighting) : String :=
  let shown := (Document.list (sightings.map fun s => .text s.display)).display
  String.ofList (shown.toList.filter fun c => c != '\'')

/-- Whether the name of a sighting begins with what was asked for.  Only a text has a beginning, and
only a text can be one. -/
def Sighting.isNamed (s : Sighting) (wanted : Value) : Except Fault Bool :=
  match s.name, wanted with
  | .value (.text full), .text start => .ok (start.toList.isPrefixOf full.toList)
  | .value (.text _), _ => .error .wrongKind
  | _, _ => .error .noSuchPart

/-- The first sighting with the name asked for. -/
def firstNamed (wanted : Value) : List Sighting → Except Fault (Option Sighting)
  | [] => .ok none
  | s :: rest => do
    if ← s.isNamed wanted then pure (some s) else firstNamed wanted rest

/-- What the detection service reports of one object. -/
structure Detection where
  name : Document
  x : Number
  y : Number
  width : Number
  height : Number
deriving Repr

/-- The detection that a document describes: the middle of the box, and the differences of its
corners. -/
def Detection.ofDocument (d : Document) : Except Fault Detection := do
  let name ← d.field "name"
  let box ← d.field "box"
  let (x1, x2) ← numberFields "x1" "x2" box
  let x ← midpoint x1 x2
  let (y1, y2) ← numberFields "y1" "y2" box
  let y ← midpoint y1 y2
  let width ← extent x1 x2
  let height ← extent y1 y2
  pure { name := name, x := x, y := y, width := width, height := height }

/-- A detection as a sighting. -/
def Detection.toSighting (d : Detection) : Except Fault Sighting := do
  let x ← d.x.toFloat
  let y ← d.y.toFloat
  let width ← d.width.toFloat
  let height ← d.height.toFloat
  pure { name := d.name, x := x, y := y, width := width, height := height }

/-- The reports of a detection result. -/
def reports (result : Document) : Except Fault (List Document) := do
  let d ← result.field "result"
  d.items

/-- The sightings of reports in order, up to the first that cannot be decoded, and how it ended. -/
def decodeReports : List Document → List Sighting × Except Fault Unit
  | [] => ([], .ok ())
  | d :: rest =>
    match Detection.ofDocument d >>= Detection.toSighting with
    | .error f => ([], .error f)
    | .ok s =>
      let (sightings, outcome) := decodeReports rest
      (s :: sightings, outcome)

end DronePilot.Vision
