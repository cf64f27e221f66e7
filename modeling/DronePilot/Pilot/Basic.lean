import DronePilot.Detector.Exchange
import DronePilot.Pilot.Ability
import DronePilot.Planner.Assistant
import DronePilot.Plan.Executor
import DronePilot.Robot.Fleet
import DronePilot.Vision.Drawing

/-!
# The pilot

The pilot has a robot, sees through its camera with the help of the detection service, and asks the
language model for plans.  It reports to the user by messages: texts and pictures.
-/

namespace DronePilot

open DronePilot.Detector DronePilot.Pilot DronePilot.Plan DronePilot.Planner DronePilot.Vision

/-- A message to the user. -/
inductive Message where
  | text (s : String)
  /-- A picture, by the name of its file. -/
  | picture (file : String)
deriving Repr, DecidableEq

/-- The pilot and all it deals with. -/
structure Pilot where
  collection : Collection
  robot : Robot
  sight : Sight := {}
  client : Client Vision.Frame
  /-- What the detection service will answer.  A call to a service elsewhere may stay without an
  answer. -/
  detections : Script (Option String) := { answers := [] }
  /-- The calls that have not been answered. -/
  waiting : Nat := 0
  assistant : Assistant := {}
  /-- The language model in use. -/
  model : String := standardModel
  /-- The prompts that the language model was sent. -/
  prompts : List String := []
  /-- The picture taken last. -/
  latest : Option Vision.Frame := none
  /-- The pilot goes on looking through the camera. -/
  active : Bool := true
  /-- The robot is still on the ground. -/
  grounded : Bool := true
  /-- The messages that nobody has read yet, if there is somebody to read them. -/
  mailbox : Option (List Message) := some []
  /-- The plan that is being carried out. -/
  plan : Option String := none
  /-- What has been done of the plan before. -/
  history : Option (List String) := none
  /-- When the plan was begun. -/
  began : Float
  /-- The executors of earlier plans that still take statements from the queue. -/
  strays : List Stray := []
  /-- Which of them are faster than the executor of a plan, for each plan. -/
  rivalry : Script (List (Option Nat)) := { answers := [] }
  /-- How many pictures were to be kept. -/
  pictures : Nat := 0
  /-- The files of the pictures that were kept. -/
  files : List String := []

/-- Something that the pilot does, which may fail. -/
abbrev Duty := ExceptT Fault (StateM Pilot)

namespace Duty

/-- Ends as a computation ended. -/
def conclude {α : Type} (r : Except Fault α) : Duty α :=
  ExceptT.mk (pure r)

/-- Does something with the eyes. -/
def see {α : Type} (f : Sight → Except Fault α × Sight) : Duty α := do
  let p ← get
  let (r, sight) := f p.sight
  set { p with sight := sight }
  conclude r

/-- Does something with the robot. -/
def steer {α : Type} (f : Robot → Scene → Except Fault α × Robot × Scene) : Duty α := do
  let p ← get
  let (r, robot, scene) := f p.robot p.sight.scene
  set { p with robot := robot, sight := { p.sight with scene := scene } }
  conclude r

/-- Asks the robot for an action. -/
def act (a : Robot.Action) : Duty Robot.Reply :=
  steer (Robot.act a)

/-- Changes the scene. -/
def changeScene (f : Scene → Scene) : Duty Unit :=
  modify fun p => { p with sight := { p.sight with scene := f p.sight.scene } }

/-- Records an event. -/
def record (e : Event) : Duty Unit :=
  changeScene fun s => s.record e

/-- Waits. -/
def sleep (seconds : Value) : Duty Unit :=
  see fun s =>
    match s.scene.sleep seconds with
    | .ok scene => (.ok (), { s with scene := scene })
    | .error f => (.error f, s)

/-- Reads the clock. -/
def now : Duty Float :=
  see fun s =>
    let (time, scene) := s.scene.readClock
    (.ok time, { s with scene := scene })

/-- Sends the user a message, if there is a user. -/
def tell (m : Message) : Duty Unit :=
  modify fun p => { p with mailbox := p.mailbox.map fun ms => ms ++ [m] }

/-- Asks the language model. -/
def consult (prompt : String) : Duty (Option String) := do
  let p ← get
  let (reply, event, assistant) := p.assistant.request prompt p.model false
  set { p with assistant := assistant, prompts := p.prompts ++ [prompt] }
  record event
  pure reply

/-- Everything in sight, in words. -/
def describe : Duty String :=
  see Sight.describe

end Duty

namespace Pilot

/-- A pilot for a robot that finds the detection service by the settings of an environment.  There are
no prompts for the car, so it cannot be piloted. -/
def ofRobot (robot : Robot) (link : Link) (env : Environment) : Except Fault Pilot := do
  if robot.kind = .gear then throw .missingFile
  let collection ← Pilot.skills
  pure
    { collection := collection, robot := robot, client := .ofSettings link env
      began := ({} : Clock).now }

/-- Stops the pilot. -/
def stop (p : Pilot) : Pilot := { p with active := false }

/-- How often something waited. -/
def waits (p : Pilot) : Nat :=
  p.sight.scene.log.countP fun e => e.name == "sleep"

/-- Starts the robot: it takes off, rises a little, and sends pictures. -/
def startRobot : Duty Unit := do
  discard (Duty.act .connect)
  discard (Duty.act .takeoff)
  discard (Duty.act (.move .up (.int 25)))
  discard (Duty.act .startStream)
  modify fun p => { p with grounded := false }

/-- Brings the robot down. -/
def stopRobot : Duty Unit := do
  discard (Duty.act .land)
  discard (Duty.act .stopStream)
  modify fun p => { p with grounded := true }

/-- Draws what is in sight onto a picture. -/
def drawSightings (picture : Picture) : Duty Unit := do
  Duty.see Sight.refresh
  let (outcome, strokes) :=
    (Drawing.sightings picture.width picture.height (← get).sight.objects).draw
  Duty.changeScene fun s => strokes.foldl Scene.record s
  Duty.conclude outcome

/-- The picture shared last, on demand with what is in sight drawn onto it. -/
def view (drawn : Bool) : Duty Picture := do
  let picture ← (← get).sight.scene.shared.frame.getPicture
  if drawn then drawSightings picture
  pure picture

end Pilot

end DronePilot
