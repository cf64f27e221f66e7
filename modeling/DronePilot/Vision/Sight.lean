import DronePilot.Value.Result
import DronePilot.Vision.Tracker

/-!
# Sight

What the pilot sees: the sightings of the frame shared last, decoded once for each frame.  Somebody
who looks for an object that is not there looks again for a while, since a frame may arrive in the
meantime.
-/

namespace DronePilot.Vision

/-- The scene, and what was last made of it. -/
structure Sight where
  scene : Scene := {}
  /-- The time of the frame decoded last. -/
  last : Option Float := none
  objects : List Sighting := []
  trackers : Trackers := Table.empty

namespace Sight

/-- Whether the frame shared last has been decoded already. -/
def isCurrent (s : Sight) : Bool :=
  s.scene.shared.time == s.last.getD 0

/-- Decodes the frame shared last, unless that was done already.  A frame that cannot be decoded to
the end leaves the sightings before the fault, and is not tried again. -/
def refresh (s : Sight) : Except Fault Unit × Sight :=
  if s.isCurrent then (.ok (), s)
  else
    let s := { s with last := s.scene.shared.stamp }
    match reports s.scene.shared.result with
    | .error f => (.error f, { s with objects := [] })
    | .ok ds =>
      let (objects, outcome) := decodeReports ds
      (outcome, { s with objects := objects })

/-- Brings the trackers up to date with the frame shared last, unless that was done already. -/
def track (s : Sight) : Except Fault Unit × Sight :=
  if s.isCurrent then (.ok (), s)
  else
    let s := { s with last := s.scene.shared.stamp }
    match reports s.scene.shared.result with
    | .error f => (.error f, s)
    | .ok ds =>
      match Matching.run ds { before := s.trackers, scene := s.scene } with
      | (.error f, m) => (.error f, { s with trackers := m.before, scene := m.scene })
      | (.ok (), m) =>
        let (outcome, f) := Forecast.run m.found.entries { scene := m.scene }
        let expired := match outcome with
          | .ok () => f.expired
          | .error _ => []
        (outcome,
          { s with
            scene := f.scene
            objects := f.sightings
            trackers := m.found.filter fun key _ => !expired.contains key })

/-- Everything in sight, in words. -/
def describe (s : Sight) : Except Fault String × Sight :=
  match s.refresh with
  | (.error f, s) => (.error f, s)
  | (.ok (), s) => (.ok (displaySightings s.objects), s)

/-- How long somebody waits before looking again, in seconds. -/
def lookInterval : Float := 0.2

/-- How often somebody looks for an object. -/
def lookCount : Nat := 10

/-- Waits before looking again. -/
def pause (s : Sight) : Sight :=
  { s with scene := (s.scene.record (.sleep (.float lookInterval))).pass lookInterval }

/-- Looks for an object a number of times. -/
def findWithin (wanted : Value) : Nat → Sight → Except Fault (Option Sighting) × Sight
  | 0, s => (.ok none, s)
  | n + 1, s =>
    match s.refresh with
    | (.error f, s) => (.error f, s)
    | (.ok (), s) =>
      match firstNamed wanted s.objects with
      | .error f => (.error f, s)
      | .ok (some o) => (.ok (some o), s)
      | .ok none => findWithin wanted n s.pause

/-- Looks for an object. -/
def find (wanted : Value) (s : Sight) : Except Fault (Option Sighting) × Sight :=
  s.findWithin wanted lookCount

/-- Whether an object is in sight. -/
def isVisible (wanted : Value) (s : Sight) : Except Fault Result × Sight :=
  match s.find wanted with
  | (.error f, s) => (.error f, s)
  | (.ok found, s) => (.ok (.ofValue (.bool found.isSome)), s)

/-- The result when an object is not in sight: a message, and the wish to replan. -/
def notInSight (question : String) (wanted : Value) (ending : String) : Result :=
  { value := .text (question ++ ": " ++ wanted.display ++ ending), replan := true }

/-- What can be measured of a sighting. -/
inductive Measure where
  | x
  | y
  | width
  | height
deriving Repr, DecidableEq

/-- The measure of a sighting. -/
def Measure.of : Measure → Sighting → Float
  | x, s => s.x
  | y, s => s.y
  | width, s => s.width
  | height, s => s.height

/-- The result of a measure when the object is not in sight. -/
def Measure.missing (m : Measure) (wanted : Value) : Result :=
  match m with
  | x => notInSight "object_x" wanted " is not in sight"
  | y => notInSight "object_y" wanted " is not in sight"
  | width => notInSight "object_width" wanted " not in sight"
  | height => notInSight "object_height" wanted " not in sight"

/-- Measures an object. -/
def measure (m : Measure) (wanted : Value) (s : Sight) : Except Fault Result × Sight :=
  match s.find wanted with
  | (.error f, s) => (.error f, s)
  | (.ok none, s) => ((fun _ => m.missing wanted) <$> wanted.written, s)
  | (.ok (some o), s) => (.ok (.ofValue (.float (m.of o))), s)

/-- The part of the width of a picture that the map of distances covers. -/
def depthFieldX : Float := 0.42

/-- The part of the height of a picture that the map of distances covers. -/
def depthFieldY : Float := 0.55

/-- The distance of an object outside the map, in centimetres. -/
def distanceOutside : Int := 30

/-- Whether a point lies outside a field of a given size in the middle of the picture. -/
def outsideField (size x : Float) : Bool :=
  x < 0.5 - size / 2 || x > 0.5 + size / 2

/-- The position of a point of the picture in a row or column of the map. -/
def fieldPosition (size x : Float) (count : Nat) : Except Fault Int :=
  (Value.float ((x - (0.5 - size / 2)) / size * (Float.ofInt ((count : Int) - 1)))).toWhole

/-- An element by its position; negative positions count from the end. -/
def elementAt {α : Type} (xs : List α) (i : Int) : Except Fault α :=
  let j := if i < 0 then i + xs.length else i
  if j < 0 then .error .noSuchPosition
  else
    match xs[j.toNat]? with
    | some x => .ok x
    | none => .error .noSuchPosition

/-- The distance at a point of the picture, in centimetres. -/
def distanceAt (depth : DepthMap) (x y : Float) : Except Fault Int :=
  match depth with
  | [] => .error .noSuchPosition
  | row :: _ => do
    let i ← fieldPosition depthFieldX x row.length
    let j ← fieldPosition depthFieldY y depth.length
    let row ← elementAt depth j
    let d ← elementAt row i
    pure (d.toInt.tdiv 10)

/-- The distance of a sighting in a frame. -/
def sightingDistance (frame : Frame) (o : Sighting) : Except Fault Int :=
  if outsideField depthFieldX o.x || outsideField depthFieldY o.y then .ok distanceOutside
  else
    match frame.depth with
    | none => .error .noSuchPart
    | some depth => distanceAt depth o.x o.y

/-- The distance of an object in centimetres. -/
def distance (wanted : Value) (s : Sight) : Except Fault Result × Sight :=
  match s.find wanted with
  | (.error f, s) => (.error f, s)
  | (.ok none, s) =>
    ((fun _ => notInSight "object_distance" wanted " not in sight") <$> wanted.written, s)
  | (.ok (some o), s) =>
    ((fun d => Result.ofValue (.int d)) <$> sightingDistance s.scene.shared.frame o, s)

/-- What can be asked about an object. -/
inductive Question where
  | visible
  | measure (m : Measure)
  | distance
deriving Repr, DecidableEq

/-- All questions. -/
def Question.all : List Question :=
  [visible, measure .x, measure .y, measure .width, measure .height, distance]

/-- The name of a question. -/
def Question.name : Question → String
  | visible => "is_visible"
  | measure .x => "object_x"
  | measure .y => "object_y"
  | measure .width => "object_width"
  | measure .height => "object_height"
  | distance => "object_distance"

/-- The question with a name. -/
def Question.named? (name : String) : Option Question :=
  all.find? fun q => q.name == name

/-- Answers a question about an object. -/
def answer (q : Question) (wanted : Value) (s : Sight) : Except Fault Result × Sight :=
  match q with
  | .visible => s.isVisible wanted
  | .measure m => s.measure m wanted
  | .distance => s.distance wanted

end Sight

end DronePilot.Vision
