import DronePilot.Robot.Maneuver
import DronePilot.Robot.Reading
import DronePilot.Vision.Frame

/-!
# The gear car

A car that is steered by speeds.  It keeps a speed until it is given another, so every drive ends
with the command to stop.  On its way forward it looks at the distances to its left, in front of it
and to its right: they decide whether it backs off, keeps straight on, swerves or turns.
-/

namespace DronePilot.Robot

open DronePilot.Vision

/-- The commands that the car is sent. -/
inductive Gear.Command where
  | connect
  | unlock
  | startStream
  | stopStream
  /-- Drive at speeds: forward, sideways and turning. -/
  | hover (ahead sideways turning : Value)
  /-- Turn by degrees. -/
  | rotate (degrees : Value)
deriving Repr

namespace Gear

/-- The command to stop. -/
def Command.stop : Command := hover (.int 0) (.int 0) (.int 0)

/-- A command in the record. -/
def Command.event : Command → Event
  | connect => { name := "connect" }
  | unlock => { name := "send_ctrl_lock", details := [.bool false] }
  | startStream => { name := "start_stream" }
  | stopStream => { name := "stop_stream" }
  | hover a s t =>
    { name := "send_command_hover", details := [.int 0, .value a, .value s, .value t] }
  | rotate d =>
    { name := "send_command_position", details := [.int 0, .int 0, .int 0, .value d] }

/-- The address of the car, as the record shows it when the link is made. -/
def linkEvent : Event :=
  { name := "Podtp"
    details := [.dict [("ip", .text "192.168.8.169"), ("ip1", .text "192.168.8.195"),
      ("port", .int 80), ("stream_port", .int 81)]] }

/-- The speed forward. -/
def speedAhead : Float := 2.5

/-- The speed sideways. -/
def speedSideways : Float := 2.8

/-- The speed of a swerve. -/
def swerve : Float := 1.5

/-- How far the car gets in one round, in centimetres. -/
def roundLength : Nat := 2

/-- How long a round lasts, in seconds. -/
def roundTime : Value := .float 0.1

/-- The longest move that is made without looking, in centimetres. -/
def blindMove : Int := 15

/-- Closer than this in front the car backs off first. -/
def backOffDistance : Int16 := 50

/-- How far the car backs off, in centimetres. -/
def backOffMove : Int := 10

/-- More room than this on a side is enough. -/
def sideRoom : Int16 := 65

/-- A greater difference of the two sides than this makes the car swerve. -/
def sideDifference : Int16 := 80

/-- How far the car turns when it is advised to, in degrees. -/
def adviceTurn : Int := 30

/-- How often the car is kept active before it is unlocked again. -/
def unlockInterval : Nat := 100

/-- The rounds of a circle. -/
def circleRounds : Nat := 50

end Gear

/-- What is known about the car. -/
structure Gear where
  streaming : Bool := false
  /-- How often the car was kept active since it was last unlocked. -/
  unlockCount : Nat := 0
  /-- The distances that the sensor holds.  Looking at them repairs them. -/
  depth : DepthMap := List.replicate 8 (List.replicate 8 100)
  /-- The distances that the sensor delivers before each look, if any. -/
  deliveries : Nat → Option DepthMap := fun _ => none
  /-- How often the car has looked. -/
  looks : Nat := 0
  /-- What the steering network makes of each look: the position of its greatest output. -/
  advice : Script Nat := { answers := [] }
  /-- Whether the car can be reached, each time it is tried. -/
  connects : Script Bool := { answers := [true] }
  /-- Whether the car can be unlocked, each time it is tried. -/
  unlocks : Script Bool := { answers := [true] }

namespace Gear

/-- The maneuvers of the car. -/
abbrev Act := Maneuver Gear Command

/-- The rounds that a distance takes: as many as it takes to bring it down to zero. -/
def rounds : Number → Nat
  | .int n => (n.toNat + (roundLength - 1)) / roundLength
  | .float x =>
    match Binary64.parts? x with
    | none => 0
    | some p =>
      let (num, den) := p.fraction
      if p.negative then 0 else (num + (roundLength * den - 1)) / (roundLength * den)

/-- Does the same for a number of rounds. -/
def repeatRound (command : Command) : Nat → Act Unit
  | 0 => pure ()
  | n + 1 => do
    Maneuver.send command
    Maneuver.wait roundTime
    repeatRound command n

/-- Drives at constant speeds for a number of rounds, from stop to stop. -/
def drive (command : Command) (n : Nat) : Act Result := do
  Maneuver.send .stop
  repeatRound command n
  Maneuver.send .stop
  pure (done false)

/-- Drives without looking. -/
def driveBlind (d : Direction) (distance : Value) (ahead sideways : Float) : Act Result := do
  Maneuver.say (← moveLine d distance)
  let n ← match distance.number? with
    | some n => pure (rounds n)
    | none => do
      Maneuver.send .stop
      throw .wrongKind
  let speed (x : Float) : Value := if x == 0 then .int 0 else .float x
  drive (.hover (speed ahead) (speed sideways) (.int 0)) n

/-- Drives backward. -/
def backward (distance : Value) : Act Result :=
  driveBlind .backward distance (-speedAhead) 0

/-- The time that a turn takes, in seconds. -/
def turnTime (degrees : Value) : Except Fault Value := do
  let t ← Operator.div.apply degrees (.float 50)
  Operator.add.apply (.int 1) t

/-- The turn that the car is told to make: clockwise is negative. -/
def signedTurn : Turn → Value → Except Fault Value
  | .counterclockwise, v => .ok v
  | .clockwise, .float x => .ok (.float (-x))
  | .clockwise, v => Operator.sub.apply (.int 0) v

/-- Turns. -/
def turn (t : Turn) (degrees : Value) : Act Result := do
  Maneuver.say (← turnLine t degrees)
  Maneuver.send .stop
  Maneuver.send (.rotate (← signedTurn t degrees))
  Maneuver.wait (← turnTime degrees)
  Maneuver.send .stop
  pure (done false)

/-- What the car sees on one look. -/
structure View where
  left : List Int16
  front : List Int16
  right : List Int16

/-- The row of the map to the left. -/
def leftRow : Nat := 0

/-- The row of the map in front. -/
def frontRow : Nat := 2

/-- The row of the map to the right. -/
def rightRow : Nat := 7

/-- Takes a row of the map and leaves it repaired. -/
def takeRow (i : Nat) : Act (List Int16) := do
  match (← Maneuver.robot).depth[i]? with
  | none => throw .noSuchPosition
  | some row => do
    let repaired ← wordGauge.repair row
    Maneuver.update fun r => { r with depth := r.depth.set i repaired }
    pure repaired

/-- Looks around. -/
def look : Act View := do
  Maneuver.update fun r =>
    { r with depth := (r.deliveries r.looks).getD r.depth, looks := r.looks + 1 }
  let left ← takeRow leftRow
  let front ← takeRow frontRow
  let right ← takeRow rightRow
  pure { left := left, front := front, right := right }

/-- What the steering network advises. -/
inductive Advice where
  | clockwise
  | straight
  | counterclockwise
  | other
deriving Repr, DecidableEq

/-- The advice that an output of the network stands for. -/
def Advice.ofOutput : Nat → Advice
  | 0 => clockwise
  | 1 => straight
  | 2 => counterclockwise
  | _ => other

/-- The output of the network that is greatest when nothing else is known: straight on. -/
def straightOutput : Nat := 1

/-- Asks the steering network. -/
def takeAdvice : Act Advice := do
  let r ← Maneuver.robot
  Maneuver.update fun r => { r with advice := r.advice.advance }
  pure (.ofOutput (r.advice.current straightOutput))

/-- The sideways speed that the room on the two sides asks for; nothing if the sides do not decide
it. -/
def sidewaysFor (left right : Int16) : Option Value :=
  if left > sideRoom && right > sideRoom then some (.int 0)
  else if left > sideRoom then some (.float (-swerve))
  else if right > sideRoom then some (.float swerve)
  else if (left - right).abs > sideDifference then
    some (.float (if left < right then swerve else -swerve))
  else none

/-- One round of a drive with open eyes.  The sideways speed of the round before is kept when the
sides do not decide it; it has to have been decided once when the car goes straight on. -/
def watchfulRound (sideways : Option Value) : Act (Option Value) := do
  let view ← look
  match greatest view.front with
  | none => throw .outOfRange
  | some front =>
    if front < backOffDistance then
      let _ ← backward (.int backOffMove)
  let advice ← takeAdvice
  match least view.left, least view.right with
  | some left, some right => do
    let sideways := (sidewaysFor left right).or sideways
    match advice with
    | .straight =>
      match sideways with
      | some v => Maneuver.send (.hover (.float speedAhead) v (.int 0))
      | none => throw .unsetVariable
    | .counterclockwise =>
      let _ ← turn .counterclockwise (.int adviceTurn)
    | .clockwise =>
      let _ ← turn .clockwise (.int adviceTurn)
    | .other => pure ()
    pure sideways
  | _, _ => throw .outOfRange

/-- Drives with open eyes for a number of rounds. -/
def watchfulRounds : Nat → Option Value → Act Unit
  | 0, _ => pure ()
  | n + 1, sideways => do
    let sideways ← watchfulRound sideways
    Maneuver.wait roundTime
    watchfulRounds n sideways

/-- Drives forward: without looking when the distance is short, with open eyes otherwise. -/
def forward (distance : Value) : Act Result := do
  match distance.number? with
  | none => driveBlind .forward distance speedAhead 0
  | some n =>
    if n.atMost (.int blindMove) then driveBlind .forward distance speedAhead 0
    else do
      Maneuver.say (← moveLine .forward distance)
      Maneuver.send .stop
      watchfulRounds (rounds n) none
      Maneuver.send .stop
      pure (done false)

/-- Moves.  The car cannot leave the ground. -/
def move (d : Direction) (distance : Value) : Act Result :=
  match d with
  | .forward => forward distance
  | .backward => backward distance
  | .left => driveBlind .left distance 0 (-speedSideways)
  | .right => driveBlind .right distance 0 speedSideways
  | .up | .down => do
    Maneuver.say (← moveLine d distance)
    pure (done false)

/-- Drives in a circle. -/
def circle (clockwise : Value) : Act Result := do
  let sign : Int := if clockwise.truthy then -1 else 1
  repeatRound (.hover (.int 0) (.int (8 * sign)) (.int (12 * sign))) circleRounds
  Maneuver.send .stop
  pure (done false)

/-- Unlocks the car; the answer says whether that worked. -/
def unlock : Act Bool := do
  let r ← Maneuver.robot
  Maneuver.send .unlock
  Maneuver.update fun r => { r with unlocks := r.unlocks.advance }
  pure (r.unlocks.current true)

/-- Connects to the car and unlocks it. -/
def connect : Act Unit := do
  let r ← Maneuver.robot
  Maneuver.send .connect
  Maneuver.update fun r => { r with connects := r.connects.advance }
  if !r.connects.current true then throw (.unreachable "Could not connect to the robot")
  if !(← unlock) then throw (.unreachable "Could not unlock the robot control")

/-- Keeps the car active. -/
def keepActive : Act Unit := do
  let r ← Maneuver.robot
  if r.unlockCount + 1 > unlockInterval then do
    let _ ← unlock
    Maneuver.update fun r => { r with unlockCount := 0 }
  else Maneuver.update fun r => { r with unlockCount := r.unlockCount + 1 }

/-- Does what it is asked to. -/
def act : Action → Act Reply
  | .connect => do
    connect
    pure .nothing
  | .takeoff => pure (.truth true)
  | .land => pure .nothing
  | .startStream => do
    Maneuver.send .startStream
    Maneuver.update fun r => { r with streaming := true }
    pure .nothing
  | .stopStream => do
    Maneuver.send .stopStream
    Maneuver.update fun r => { r with streaming := false }
    pure .nothing
  | .keepActive => do
    keepActive
    pure .nothing
  | .move d v => Reply.result <$> move d v
  | .turn t v => Reply.result <$> turn t v
  | .circle v => Reply.result <$> circle v
  | .checkBattery => throw .noSuchPart

end Gear

end DronePilot.Robot
