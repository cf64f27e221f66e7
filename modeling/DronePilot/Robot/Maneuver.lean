import DronePilot.Event
import DronePilot.Value.Order
import DronePilot.Value.Result

/-!
# Maneuvers

What a robot does is a list of deeds: commands that it is sent, waits, and lines that are printed.  A
maneuver brings about deeds and changes what is known about the robot; it may break off with a
fault, which does not undo the deeds before.
-/

namespace DronePilot.Robot

/-- One thing done in the course of a maneuver. -/
inductive Deed (κ : Type) where
  | send (command : κ)
  | wait (seconds : Value)
  | say (text : String)
deriving Repr

/-- The commands among deeds. -/
def Deed.command? {κ : Type} : Deed κ → Option κ
  | send c => some c
  | wait _ | say _ => none

/-- A robot and the deeds so far. -/
structure Course (ρ κ : Type) where
  robot : ρ
  deeds : List (Deed κ) := []

/-- A maneuver of a robot with commands of a given kind. -/
abbrev Maneuver (ρ κ : Type) := ExceptT Fault (StateM (Course ρ κ))

namespace Maneuver

variable {ρ κ : Type}

/-- Notes a deed. -/
def perform (d : Deed κ) : Maneuver ρ κ Unit :=
  modify fun c => { c with deeds := c.deeds ++ [d] }

/-- Sends a command. -/
def send (command : κ) : Maneuver ρ κ Unit :=
  perform (.send command)

/-- Prints a line. -/
def say (line : String) : Maneuver ρ κ Unit :=
  perform (.say (line ++ "\n"))

/-- Waits, which takes a number of seconds that is not negative. -/
def wait (seconds : Value) : Maneuver ρ κ Unit := do
  if ← seconds.isBelow 0 then throw .outOfRange
  perform (.wait seconds)

/-- The robot. -/
def robot : Maneuver ρ κ ρ := do
  return (← get).robot

/-- Changes what is known about the robot. -/
def update (f : ρ → ρ) : Maneuver ρ κ Unit :=
  modify fun c => { c with robot := f c.robot }

end Maneuver

/-- The directions of moves. -/
inductive Direction where
  | forward
  | backward
  | left
  | right
  | up
  | down
deriving Repr, DecidableEq

/-- The word for a direction. -/
def Direction.word : Direction → String
  | forward => "forward"
  | backward => "backward"
  | left => "left"
  | right => "right"
  | up => "up"
  | down => "down"

/-- All directions. -/
def Direction.all : List Direction := [forward, backward, left, right, up, down]

/-- The name under which a move in a direction is asked for. -/
def Direction.command (d : Direction) : String := "move_" ++ d.word

/-- The senses of turns. -/
inductive Turn where
  | clockwise
  | counterclockwise
deriving Repr, DecidableEq

/-- The abbreviation of a sense of turning. -/
def Turn.word : Turn → String
  | clockwise => "CW"
  | counterclockwise => "CCW"

/-- All senses of turns. -/
def Turn.all : List Turn := [clockwise, counterclockwise]

/-- The name under which a turn is asked for. -/
def Turn.command : Turn → String
  | clockwise => "turn_cw"
  | counterclockwise => "turn_ccw"

/-- The line that announces a move. -/
def moveLine (d : Direction) (distance : Value) : Except Fault String := do
  pure ("-> Moving " ++ d.word ++ " " ++ (← distance.written) ++ " cm")

/-- The line that announces a turn. -/
def turnLine (t : Turn) (degrees : Value) : Except Fault String := do
  pure ("-> Turning " ++ t.word ++ " " ++ (← degrees.written) ++ " degrees")

/-- How far a robot has moved forward and to the left and turned counterclockwise, by what it was
told. -/
structure Odometry where
  x : Value := .int 0
  y : Value := .int 0
  rotation : Value := .int 0
deriving Repr, Inhabited

/-- The odometry after a move. -/
def Odometry.move (o : Odometry) (d : Direction) (distance : Value) : Except Fault Odometry :=
  match d with
  | .forward => (fun x => { o with x := x }) <$> Operator.add.apply o.x distance
  | .backward => (fun x => { o with x := x }) <$> Operator.sub.apply o.x distance
  | .left => (fun y => { o with y := y }) <$> Operator.add.apply o.y distance
  | .right => (fun y => { o with y := y }) <$> Operator.sub.apply o.y distance
  | .up | .down => .ok o

/-- The odometry after a turn. -/
def Odometry.turn (o : Odometry) (t : Turn) (degrees : Value) : Except Fault Odometry :=
  match t with
  | .counterclockwise => (fun r => { o with rotation := r }) <$> Operator.add.apply o.rotation degrees
  | .clockwise => (fun r => { o with rotation := r }) <$> Operator.sub.apply o.rotation degrees

/-- The result of a move or turn that was made. -/
def done (replan : Bool) : Result :=
  { value := .bool true, replan := replan }

/-- What a robot answers: nothing, a truth value or a result. -/
inductive Reply where
  | nothing
  | truth (b : Bool)
  | result (r : Result)

/-- What a robot can be asked to do. -/
inductive Action where
  | connect
  | takeoff
  | land
  | startStream
  | stopStream
  | keepActive
  | move (d : Direction) (distance : Value)
  | turn (t : Turn) (degrees : Value)
  | circle (clockwise : Value)
  | checkBattery

/-- The action with a name; moves, turns and circles take a value. -/
def Action.named? (name : String) (v : Value) : Option Action :=
  match Direction.all.find? fun d => d.command == name with
  | some d => some (.move d v)
  | none =>
    match Turn.all.find? fun t => t.command == name with
    | some t => some (.turn t v)
    | none =>
      [("connect", connect), ("takeoff", takeoff), ("land", land), ("start_stream", startStream),
        ("stop_stream", stopStream), ("keep_active", keepActive), ("move_in_circle", circle v),
        ("is_battery_good", checkBattery)].lookup name

/-- A reply as a result. -/
def Reply.toResult : Reply → Result
  | nothing => .none
  | truth b => .ofValue (.bool b)
  | result r => r

end DronePilot.Robot
