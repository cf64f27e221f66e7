import DronePilot.Clock
import DronePilot.Event
import DronePilot.Vision.Frame

/-!
# The scene

The scene is what the pilot finds around it: the clock, the frame that was shared last together with
what was detected in it, frames that are on their way, and a record of what the pilot has done.
Frames arrive while time passes.
-/

namespace DronePilot.Vision

/-- The frame shared last.  Before the first one there is no time of sharing. -/
structure Shared (φ : Type) where
  frame : φ
  stamp : Option Float := none
  result : Document := .dict []

/-- The time of sharing; zero before the first frame. -/
def Shared.time {φ : Type} (s : Shared φ) : Float := s.stamp.getD 0

/-- A frame on its way, with what will be detected in it. -/
structure Arrival where
  due : Float
  frame : Frame
  result : Document

/-- The surroundings of the pilot. -/
structure Scene where
  clock : Clock := {}
  shared : Shared Frame := { frame := .blank }
  /-- The frames on their way, in the order in which they were sent. -/
  arrivals : List Arrival := []
  log : List Event := []
  /-- What was printed. -/
  printed : String := ""

namespace Scene

/-- Records an event. -/
def record (s : Scene) (e : Event) : Scene :=
  { s with log := s.log ++ [e] }

/-- Reads the clock. -/
def readClock (s : Scene) : Float × Scene :=
  (s.clock.reading, { s with clock := s.clock.afterReading })

/-- Shares a frame and what was detected in it. -/
def share (s : Scene) (frame : Frame) (result : Document) : Scene :=
  let (time, s) := s.readClock
  { s with shared := { frame := frame, stamp := some time, result := result } }

/-- Sends a frame that arrives some seconds later. -/
def send (s : Scene) (after : Float) (frame : Frame) (result : Document) : Scene :=
  let arrival := { due := s.clock.now + after, frame := frame, result := result : Arrival }
  { s with arrivals := s.arrivals ++ [arrival] }

/-- Shares the frames that have arrived by a given time, in order, and keeps the others. -/
def deliver (time : Float) : List Arrival → Scene → Scene
  | [], s => s
  | a :: rest, s =>
    if a.due ≤ time then deliver time rest (s.share a.frame a.result)
    else deliver time rest { s with arrivals := s.arrivals ++ [a] }

/-- Lets time pass. -/
def pass (s : Scene) (seconds : Float) : Scene :=
  let clock := s.clock.pass seconds
  deliver clock.now s.arrivals { s with clock := clock, arrivals := [] }

/-- Waits, which takes a number of seconds that is not negative. -/
def sleep (s : Scene) (seconds : Value) : Except Fault Scene :=
  match seconds.number? with
  | none => .error .wrongKind
  | some n =>
    if n.less (.int 0) then .error .outOfRange
    else do
      let x ← n.toFloat
      pure ((s.record (.sleep seconds)).pass x)

end Scene

end DronePilot.Vision
