import DronePilot.Robot.Maneuver

/-!
# The Tello drone

A drone that takes whole moves and turns.  It accepts distances within limits only, so a distance is
brought between them before it is sent.
-/

namespace DronePilot.Robot

/-- The commands that the drone and its picture reader are sent. -/
inductive Tello.Command where
  | connect
  | takeoff
  | land
  | keepAlive
  | streamOn
  | streamOff
  | move (d : Direction) (distance : Value)
  | rotate (t : Turn) (degrees : Value)
  | openReader
  | brighten
  | sharpen
deriving Repr

namespace Tello

/-- The name of a move in the language of the drone. -/
def moveName : Direction → String
  | .forward => "move_forward"
  | .backward => "move_back"
  | .left => "move_left"
  | .right => "move_right"
  | .up => "move_up"
  | .down => "move_down"

/-- The name of a turn in the language of the drone. -/
def turnName : Turn → String
  | .clockwise => "rotate_clockwise"
  | .counterclockwise => "rotate_counter_clockwise"

/-- How much pictures are stretched in contrast. -/
def contrast : Float := 1.3

/-- How much is added to the brightness of pictures. -/
def brightness : Int := -30

/-- The weights by which pictures are sharpened. -/
def sharpening : List (List Int) :=
  [[0, -1, 0], [-1, 5, -1], [0, -1, 0]]

/-- A command in the record. -/
def Command.event : Command → Event
  | connect => { name := "connect" }
  | takeoff => { name := "takeoff" }
  | land => { name := "land" }
  | keepAlive => { name := "send_control_command", details := [.text "command"] }
  | streamOn => { name := "streamon" }
  | streamOff => { name := "streamoff" }
  | move d v => { name := moveName d, details := [.value v] }
  | rotate t v => { name := turnName t, details := [.value v] }
  | openReader => { name := "get_frame_read" }
  | brighten => { name := "convertScaleAbs", details := [.float contrast, .int brightness] }
  | sharpen =>
    { name := "filter2D"
      details := [.int (-1), .list (sharpening.map fun row => .list (row.map .int))] }

/-- The shortest move, in centimetres. -/
def shortestMove : Int := 20

/-- The longest move, in centimetres. -/
def longestMove : Int := 300

/-- The longest move after which the scene is taken to be the same. -/
def sceneDistance : Int := 120

/-- The lowest charge with which the drone takes off, in percent. -/
def lowestCharge : Int := 20

/-- Every so many times it is kept active, the drone is sent something. -/
def keepAliveInterval : Nat := 20

/-- A distance brought between the limits. -/
def cap (distance : Value) : Except Fault Value := do
  if ← distance.isBelow shortestMove then pure (.int shortestMove)
  else if ← distance.isAbove longestMove then pure (.int longestMove)
  else pure distance

end Tello

/-- What is known about the drone. -/
structure Tello where
  odometry : Odometry := {}
  streaming : Bool := false
  /-- How often the drone was kept active. -/
  activeCount : Nat := 0
  /-- The charge of the battery, each time it is asked for. -/
  battery : Script Value := { answers := [] }

namespace Tello

/-- The maneuvers of the drone. -/
abbrev Act := Maneuver Tello Command

/-- Whether a move in a direction can lead to another scene. -/
def changesScene : Direction → Bool
  | .forward | .backward | .left | .right => true
  | .up | .down => false

/-- Moves.  The drone is told the distance between its limits; the odometry counts the distance
asked for. -/
def move (d : Direction) (distance : Value) : Act Result := do
  Maneuver.send (.move d (← cap distance))
  let o ← (← Maneuver.robot).odometry.move d distance
  Maneuver.update fun r => { r with odometry := o }
  Maneuver.wait (.float 0.5)
  let far ← distance.isAbove sceneDistance
  pure (done (changesScene d && far))

/-- Turns. -/
def turn (t : Turn) (degrees : Value) : Act Result := do
  Maneuver.send (.rotate t degrees)
  let o ← (← Maneuver.robot).odometry.turn t degrees
  Maneuver.update fun r => { r with odometry := o }
  Maneuver.wait (.int 1)
  pure (done false)

/-- The charge when nothing else is known, in percent. -/
def fullCharge : Value := .int 100

/-- Asks for the charge of the battery and says whether it is enough. -/
def checkBattery : Act Bool := do
  let r ← Maneuver.robot
  let charge := r.battery.current fullCharge
  Maneuver.update fun r => { r with battery := r.battery.advance }
  Maneuver.perform (.say ("> Battery level: " ++ (← charge.written) ++ "% "))
  if ← charge.isBelow lowestCharge then do
    Maneuver.say "is too low [WARNING]"
    pure false
  else do
    Maneuver.say "[OK]"
    pure true

/-- Takes off if the battery is good. -/
def takeoff : Act Bool := do
  if ← checkBattery then do
    Maneuver.send .takeoff
    pure true
  else pure false

/-- Keeps the drone active. -/
def keepActive : Act Unit := do
  let r ← Maneuver.robot
  if r.activeCount % keepAliveInterval = 0 then Maneuver.send .keepAlive
  Maneuver.update fun r => { r with activeCount := r.activeCount + 1 }

/-- Whether there are pictures to read. -/
def openReader : Act Bool := do
  let r ← Maneuver.robot
  if r.streaming then Maneuver.send .openReader
  pure r.streaming

/-- Reads a picture and improves it. -/
def readPicture : Act Unit := do
  Maneuver.send .brighten
  Maneuver.send .sharpen

/-- Sends a command and answers nothing. -/
def tell (c : Command) : Act Reply := do
  Maneuver.send c
  pure .nothing

/-- Does what it is asked to. -/
def act : Action → Act Reply
  | .connect => tell .connect
  | .takeoff => Reply.truth <$> takeoff
  | .land => tell .land
  | .startStream => do
    Maneuver.update fun r => { r with streaming := true }
    tell .streamOn
  | .stopStream => do
    Maneuver.update fun r => { r with streaming := false }
    tell .streamOff
  | .keepActive => do
    keepActive
    pure .nothing
  | .move d v => Reply.result <$> move d v
  | .turn t v => Reply.result <$> turn t v
  | .checkBattery => Reply.truth <$> checkBattery
  | .circle _ => throw .noSuchPart

end Tello

end DronePilot.Robot
