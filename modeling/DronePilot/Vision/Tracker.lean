import DronePilot.Table
import DronePilot.Vision.Scene
import DronePilot.Vision.Sighting

/-!
# Trackers

A tracker follows one object from frame to frame: it holds where the object was seen last, and when.
The detections of a new frame are matched one after the other with the trackers of the frames before:
each goes to the nearest tracker of its name if that is near enough, and founds a new one otherwise.
-/

namespace DronePilot.Vision

/-- Where an object was seen last. -/
structure Tracker where
  name : Document
  x : Value
  y : Value
  width : Value
  height : Value
  /-- The time of the last update. -/
  stamp : Float
deriving Repr, Inhabited

/-- How long a tracker lasts without an update, in seconds. -/
def trackerLife : Float := 0.5

/-- The greatest distance at which a detection belongs to a tracker. -/
def matchingDistance : Float := 50

/-- A tracker that was just updated. -/
def Tracker.update (t : Tracker) (x y width height : Value) (time : Float) : Tracker :=
  { t with x := x, y := y, width := width, height := height, stamp := time }

/-- Where the object is, unless it has not been seen for too long. -/
def Tracker.predict (t : Tracker) (time : Float) : Except Fault (Option Sighting) :=
  if time - t.stamp > trackerLife then .ok none
  else some <$> Sighting.ofValues t.name t.x t.y t.width t.height

/-- The box around a middle. -/
def boxAround (x y width height : Number) : Except Fault Box := do
  let halfWidth ← Operator.div.onNumbers width (.int 2)
  let x1 ← Operator.sub.onNumbers x halfWidth
  let halfHeight ← Operator.div.onNumbers height (.int 2)
  let y1 ← Operator.sub.onNumbers y halfHeight
  let x2 ← Operator.add.onNumbers x halfWidth
  let y2 ← Operator.add.onNumbers y halfHeight
  pure { x1 := x1, y1 := y1, x2 := x2, y2 := y2 }

/-- How far a detection is from where a tracker has its object. -/
def Tracker.distance (t : Tracker) (d : Detection) : Except Fault Float := do
  let x ← t.x.toNumber
  let y ← t.y.toNumber
  let width ← t.width.toNumber
  let height ← t.height.toNumber
  let box ← boxAround x y width height
  let (x, y) ← box.centre
  let x' ← d.x.toFloat
  let y' ← d.y.toFloat
  pointDistance x y x' y'

/-- The trackers by key. -/
abbrev Trackers := Table String Tracker

/-- The nearest tracker with the name of a detection, the first of several; `best` is the nearest of
those before. -/
def nearestFrom (d : Detection) :
    Option (String × Float) → List (String × Tracker) → Except Fault (Option (String × Float))
  | best, [] => .ok best
  | best, (key, t) :: rest =>
    if t.name.same d.name then do
      let distance ← t.distance d
      let bound := match best with
        | some (_, x) => x
        | none => 1.0 / 0.0
      nearestFrom d (if distance < bound then some (key, distance) else best) rest
    else nearestFrom d best rest

/-- The tracker that a detection belongs to. -/
def Trackers.owner? (ts : Trackers) (d : Detection) : Except Fault (Option String) := do
  match ← nearestFrom d none ts.entries with
  | some (key, distance) => pure (if distance < matchingDistance then some key else none)
  | none => pure none

/-- A frame being matched: the trackers of the frames before, brought up to date as they are matched,
and those of this frame. -/
structure Matching where
  before : Trackers
  found : Trackers := Table.empty
  scene : Scene

/-- The key of a new tracker. -/
def newKey (d : Detection) (before : Trackers) : String :=
  d.name.display ++ "_" ++ toString before.size

/-- Enters a detection for a tracker, or for a new one. -/
def Matching.enter (m : Matching) (d : Detection) (owner : Option String) : Matching :=
  let (time, scene) := m.scene.readClock
  let fresh : Tracker :=
    { name := d.name, x := d.x.toValue, y := d.y.toValue, width := d.width.toValue,
      height := d.height.toValue, stamp := time }
  match owner.bind fun key => (m.before.find? key).map fun t => (key, t) with
  | some (key, t) =>
    let t := t.update fresh.x fresh.y fresh.width fresh.height time
    { before := m.before.insert key t, found := m.found.insert key t, scene := scene }
  | none => { m with found := m.found.insert (newKey d m.before) fresh, scene := scene }

/-- Matches reports in order, up to the first that cannot be decoded. -/
def Matching.run : List Document → Matching → Except Fault Unit × Matching
  | [], m => (.ok (), m)
  | report :: rest, m =>
    match (do
      let d ← Detection.ofDocument report
      let owner ← m.before.owner? d
      pure (d, owner)) with
    | .error f => (.error f, m)
    | .ok (d, owner) => Matching.run rest (m.enter d owner)

/-- What the trackers of a frame show. -/
structure Forecast where
  sightings : List Sighting := []
  /-- The trackers that have not been updated for too long. -/
  expired : List String := []
  scene : Scene

/-- Asks trackers in order where their objects are, up to the first that cannot say. -/
def Forecast.run : List (String × Tracker) → Forecast → Except Fault Unit × Forecast
  | [], f => (.ok (), f)
  | (key, t) :: rest, f =>
    let (time, scene) := f.scene.readClock
    let f := { f with scene := scene }
    match t.predict time with
    | .error e => (.error e, f)
    | .ok (some s) => Forecast.run rest { f with sightings := f.sightings ++ [s] }
    | .ok none => Forecast.run rest { f with expired := f.expired ++ [key] }

end DronePilot.Vision
