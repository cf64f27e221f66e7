import DronePilot.Robot.Maneuver

/-!
# The virtual robot

A robot that only says what it would do.  Its pictures come from the camera of the computer.
-/

namespace DronePilot.Robot

/-- The commands of the virtual robot: what is done with the camera. -/
inductive Virtual.Command where
  | openCamera
  | closeCamera
  | convertColours
deriving Repr, DecidableEq

/-- The code for turning the order of colours around. -/
def swapColours : Int := 4

/-- A command in the record. -/
def Virtual.Command.event : Command → Event
  | openCamera => { name := "VideoCapture", details := [.int 0] }
  | closeCamera => { name := "release" }
  | convertColours => { name := "cvtColor", details := [.int swapColours] }

/-- The virtual robot. -/
structure Virtual where
  odometry : Odometry := {}
  streaming : Bool := false
  /-- The camera was opened before. -/
  hasCamera : Bool := false
  /-- Whether the camera can be used, each time somebody asks. -/
  opened : Script Bool := { answers := [true] }
  /-- Whether the camera delivers a picture, each time one is read. -/
  reads : Script Bool := { answers := [true] }

namespace Virtual

/-- The maneuvers of the virtual robot. -/
abbrev Act := Maneuver Virtual Command

/-- The greatest turn that takes time. -/
def wideTurn : Int := 90

/-- Moves. -/
def move (d : Direction) (distance : Value) : Act Result := do
  Maneuver.say (← moveLine d distance)
  let o ← (← Maneuver.robot).odometry.move d distance
  Maneuver.update fun r => { r with odometry := o }
  Maneuver.wait (.int 1)
  pure (done false)

/-- Turns.  A wide turn is said to be one. -/
def turn (t : Turn) (degrees : Value) : Act Result := do
  Maneuver.say (← turnLine t degrees)
  let o ← (← Maneuver.robot).odometry.turn t degrees
  Maneuver.update fun r => { r with odometry := o }
  let n ← degrees.toNumber
  if (Number.int wideTurn).atMost n then
    Maneuver.say ("-> Turning " ++ t.word ++ " over 90 degrees")
  else Maneuver.wait (.int 1)
  pure (done false)

/-- Opens the camera. -/
def startStream : Act Unit := do
  Maneuver.send .openCamera
  Maneuver.update fun r => { r with hasCamera := true, streaming := true }

/-- Closes the camera, which has to have been opened once. -/
def stopStream : Act Unit := do
  if !(← Maneuver.robot).hasCamera then throw .noSuchPart
  Maneuver.send .closeCamera
  Maneuver.update fun r => { r with streaming := false }

/-- Whether there are pictures to read; the camera has to be usable then. -/
def openReader : Act Bool := do
  let r ← Maneuver.robot
  if !r.streaming then pure false
  else do
    Maneuver.update fun r => { r with opened := r.opened.advance }
    if r.opened.current true then pure true
    else throw (.unreachable "Could not open video device")

/-- Reads a picture. -/
def readPicture : Act Unit := do
  let r ← Maneuver.robot
  Maneuver.update fun r => { r with reads := r.reads.advance }
  if r.reads.current true then Maneuver.send .convertColours
  else throw (.unreachable "Could not read frame")

/-- Does what it is asked to. -/
def act : Action → Act Reply
  | .connect | .land | .keepActive => pure .nothing
  | .takeoff => pure (.truth true)
  | .startStream => do
    startStream
    pure .nothing
  | .stopStream => do
    stopStream
    pure .nothing
  | .move d v => Reply.result <$> move d v
  | .turn t v => Reply.result <$> turn t v
  | .circle _ | .checkBattery => throw .noSuchPart

end Virtual

end DronePilot.Robot
