import DronePilot.Robot.Gear
import DronePilot.Robot.Tello
import DronePilot.Robot.Virtual
import DronePilot.Vision.Scene

/-!
# The robots

Any of the robots, doing its deeds in a scene: commands are recorded, waits let time pass, and what
is said is printed.
-/

namespace DronePilot

open DronePilot.Robot DronePilot.Vision

/-- A robot of one of the kinds. -/
inductive Robot where
  | virtual (r : Virtual)
  | tello (r : Tello)
  | gear (r : Gear)

namespace Robot

/-- The kinds of robots. -/
inductive Kind where
  | virtual
  | tello
  | gear
deriving Repr, DecidableEq

/-- The kind of a robot. -/
def kind : Robot → Kind
  | .virtual _ => .virtual
  | .tello _ => .tello
  | .gear _ => .gear

/-- The odometry of a robot.  The car keeps none. -/
def odometry : Robot → Odometry
  | .virtual r => r.odometry
  | .tello r => r.odometry
  | .gear _ => {}

/-- Whether a robot is sending pictures. -/
def streaming : Robot → Bool
  | .virtual r => r.streaming
  | .tello r => r.streaming
  | .gear r => r.streaming

/-- Does one deed. -/
def Deed.carryOut {κ : Type} (event : κ → Event) (s : Scene) : Deed κ → Scene
  | .send c => s.record (event c)
  | .wait v =>
    match v.number?.map Number.toFloat with
    | some (.ok x) => (s.record (.sleep v)).pass x
    | _ => s
  | .say text => { s with printed := s.printed ++ text }

/-- Carries out a maneuver in a scene. -/
def carryOut {ρ κ α : Type} (event : κ → Event) (m : Maneuver ρ κ α) (robot : ρ) (s : Scene) :
    Except Fault α × ρ × Scene :=
  let (result, course) := m.run.run { robot := robot }
  (result, course.robot, course.deeds.foldl (Deed.carryOut event) s)

/-- Carries out whichever maneuver is meant for the robot there is. -/
def choose {α : Type} (v : Virtual.Act α) (t : Tello.Act α) (g : Gear.Act α) (robot : Robot)
    (s : Scene) : Except Fault α × Robot × Scene :=
  match robot with
  | .virtual r =>
    let (result, r, s) := carryOut Virtual.Command.event v r s
    (result, .virtual r, s)
  | .tello r =>
    let (result, r, s) := carryOut Tello.Command.event t r s
    (result, .tello r, s)
  | .gear r =>
    let (result, r, s) := carryOut Gear.Command.event g r s
    (result, .gear r, s)

/-- The events of making a robot: only the car has a link of its own. -/
def madeEvents : Robot → List Event
  | .gear _ => [Gear.linkEvent]
  | .virtual _ | .tello _ => []

/-- Does what the robot is asked to. -/
def act (a : Action) : Robot → Scene → Except Fault Reply × Robot × Scene :=
  choose (Virtual.act a) (Tello.act a) (Gear.act a)

/-- Whether there are pictures to read. -/
def openReader : Robot → Scene → Except Fault Bool × Robot × Scene :=
  choose Virtual.openReader Tello.openReader (do return (← Maneuver.robot).streaming)

/-- The width and the height of the pictures that robots deliver. -/
def pictureSize : Nat := 4

/-- A frame from a robot. -/
def robotFrame (depth : Option DepthMap) : Frame :=
  { picture := some (.black pictureSize pictureSize), depth := depth }

/-- Reads a frame. -/
def readFrame : Robot → Scene → Except Fault Frame × Robot × Scene :=
  choose
    (do
      Virtual.readPicture
      pure (robotFrame none))
    (do
      Tello.readPicture
      pure (robotFrame none))
    (do return robotFrame (some (← Maneuver.robot).depth))

/-- Looks through the camera once, if there are pictures to read. -/
def look (robot : Robot) (s : Scene) : Except Fault (Option Picture) × Robot × Scene :=
  match robot.openReader s with
  | (.error f, robot, s) => (.error f, robot, s)
  | (.ok false, robot, s) => (.ok none, robot, s)
  | (.ok true, robot, s) =>
    let (frame, robot, s) := robot.readFrame s
    (some <$> (frame >>= Frame.getPicture), robot, s)

end Robot

end DronePilot
