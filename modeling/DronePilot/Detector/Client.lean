import DronePilot.Document.Reader
import DronePilot.Document.Writer
import DronePilot.Settings
import DronePilot.Vision.Frame

/-!
# Clients of the detection service

A client sends frames to the detection service and pairs the results with the frames they belong to.
A service on this computer is asked and answers at once.  A service elsewhere answers later, and the
answers may come in any order: frames are numbered and kept in the order of their numbers until an
answer names one of them.  Frames older than the one named are given up, and so is an answer that
names a frame older than all that are kept.
-/

namespace DronePilot.Detector

open DronePilot.Vision

/-- How a client reaches the service. -/
inductive Link where
  | direct
  | web
deriving Repr, DecidableEq

/-- A frame that waits for its result.  Frames for a service elsewhere have a number. -/
structure Parcel (φ : Type) where
  number : Option Nat
  frame : φ
deriving Repr

/-- A client. -/
structure Client (φ : Type) where
  link : Link
  /-- The host of the service. -/
  host : String := "localhost"
  /-- The address of the service. -/
  address : String := ""
  /-- Somebody wants the results. -/
  attached : Bool := true
  parcels : List (Parcel φ) := []
  /-- The number of the next frame. -/
  nextId : Nat := 0
  /-- What a client that goes through the web calls its frames; it does not number them itself. -/
  imageId : Option Document := none

/-- What is asked of the service. -/
inductive Request where
  | direct (method : String) (imageId : Document) (conf : Value) (width height : Nat)
  | web (body : String)
deriving Repr

/-- The method for single pictures. -/
def singleMethod : String := "Detect"

/-- The method for pictures of a stream. -/
def streamMethod : String := "DetectStream"

/-- The confidence that a detection needs on this computer. -/
def localConf : Value := .float 0.2

/-- The confidence that a detection needs elsewhere. -/
def Link.conf : Link → Value
  | direct => .float 0.1
  | web => .float 0.3

/-- The body of a request through the web. -/
def webBody (imageId : Document) (conf : Value) : String :=
  (Document.dict [("user_name", .text "yolo"), ("stream_mode", .bool true), ("image_id", imageId),
    ("conf", .value conf)]).write

namespace Client

variable {φ : Type}

/-- The client of a link, with the settings of an environment. -/
def ofSettings (link : Link) (env : Environment) : Client φ :=
  { link := link
    host := Settings.visionHost env
    address := match link with
      | .direct => Settings.directAddress env
      | .web => Settings.webAddress env }

/-- Whether the service is on this computer. -/
def isLocal (c : Client φ) : Bool := Settings.isLocal c.host

/-- Keeps a frame until its result comes. -/
def keep (c : Client φ) (number : Option Nat) (frame : φ) : Client φ :=
  { c with parcels := c.parcels ++ [{ number := number, frame := frame }] }

/-- Asks a service on this computer, which is sent pictures of the size of the camera. -/
def ask (c : Client φ) (frame : φ) (conf : Value) : Except Fault Request × Client φ :=
  let c := c.keep none frame
  match c.link with
  | .direct => (.ok (.direct streamMethod .null conf cameraWidth cameraHeight), c)
  | .web =>
    match c.imageId with
    | none => (.error .noSuchPart, c)
    | some id => (.ok (.web (webBody id conf)), c)

/-- Takes the answer of a service on this computer: the result belongs to the oldest frame. -/
def hear (c : Client φ) (reply : String) :
    Except Fault (Option (Parcel φ × Document)) × Client φ :=
  match Document.read reply with
  | .error f => (.error f, c)
  | .ok result =>
    match c.attached, c.parcels with
    | true, p :: rest => (.ok (some (p, result)), { c with parcels := rest })
    | _, _ => (.ok none, c)

/-- Sends a frame of a given size to a service elsewhere.  Through the web, a frame gets a number
only when the request could be made. -/
def submit (c : Client φ) (frame : φ) (width height : Nat) (conf : Value) :
    Except Fault Request × Client φ :=
  let kept := c.keep (some c.nextId) frame
  let numbered := { kept with nextId := c.nextId + 1 }
  match c.link with
  | .direct => (.ok (.direct singleMethod (.int c.nextId) conf width height), numbered)
  | .web =>
    match c.imageId with
    | none => (.error .noSuchPart, kept)
    | some id => (.ok (.web (webBody id conf)), numbered)

/-- How the number of the oldest frame compares with the number that a result names. -/
def compareHead (p : Parcel φ) (result : Document) : Except Fault (Option Ordering) := do
  match p.number with
  | none => throw .wrongKind
  | some n =>
    let id ← (← result.field "image_id").toValue
    pure ((Number.int n).order? (← id.toNumber))

/-- Gives up the frames older than the one that a result names. -/
def discard (result : Document) : List (Parcel φ) → Except Fault Unit × List (Parcel φ)
  | [] => (.error .noSuchPosition, [])
  | p :: rest =>
    match compareHead p result with
    | .error f => (.error f, p :: rest)
    | .ok (some .lt) => discard result rest
    | .ok _ => (.ok (), p :: rest)

/-- Pairs a result with the frame that it names. -/
def settle (c : Client φ) (result : Document) :
    Except Fault (Option (φ × Document)) × Client φ :=
  if c.parcels.isEmpty then (.ok none, c)
  else
    match discard result c.parcels with
    | (.error f, parcels) => (.error f, { c with parcels := parcels })
    | (.ok (), parcels) =>
      let c := { c with parcels := parcels }
      match parcels with
      | [] => (.ok none, c)
      | p :: rest =>
        match compareHead p result with
        | .error f => (.error f, c)
        | .ok (some .gt) => (.ok none, c)
        | .ok _ =>
          if c.attached then (.ok (some (p.frame, result)), { c with parcels := rest })
          else (.ok none, c)

/-- Takes an answer of a service elsewhere.  An answer through the web that is no document is
ignored. -/
def receive (c : Client φ) (reply : String) : Except Fault (Option (φ × Document)) × Client φ :=
  match Document.read reply, c.link with
  | .ok result, _ => c.settle result
  | .error f, .direct => (.error f, c)
  | .error _, .web => (.ok none, c)

/-- How a request ends that is not answered in time. -/
def timeoutFault : Link → Fault
  | .direct => .timedOut
  | .web => .remoteFailure

end Client

end DronePilot.Detector
