import DronePilot.Pilot.Basic
import DronePilot.Planner.Prompt

/-!
# The pilot's skills at work

What each ability of the pilot does, and the toolkit of skills that plans can call.
-/

namespace DronePilot.Pilot

open DronePilot.Plan DronePilot.Planner DronePilot.Text DronePilot.Vision

/-- How far the robot moves towards an object, in centimetres. -/
def approachDistance : Int := 110

/-- The degrees that the camera sees from one side to the other. -/
def cameraAngle : Float := 70

/-- The position that stands in brackets in the name of an object, as in `chair[0.6]`; none if there
are no brackets. -/
def positionInName (name : List Char) : Option (Except Fault Float) :=
  (cutAt? '[' name).map fun (_, rest) =>
    let inside := (rest.takeWhile (· != '[')).takeWhile (· != ']')
    (Value.text (String.ofList inside)).toReal

/-- Where an object is, from the left side of the picture to the right: given by its name, or seen. -/
def position (object : Value) : Duty Float :=
  match object with
  | .text name =>
    match positionInName name.toList with
    | some x => Duty.conclude x
    | none => do
      let r ← Duty.see (Sight.measure .x object)
      match r.value with
      | .float x => pure x
      | _ => throw .wrongKind
  | _ => throw .wrongKind

/-- Turns the robot so that a position comes to the middle of the picture.  Near the middle there is
no need to. -/
def faceTo (x : Float) : Duty Unit := do
  if x > 0.55 then
    let degrees ← (Value.float ((x - 0.5) * cameraAngle)).toWhole
    discard (Duty.act (.turn .clockwise (.int degrees)))
  else if x < 0.45 then
    let degrees ← (Value.float ((0.5 - x) * cameraAngle)).toWhole
    discard (Duty.act (.turn .counterclockwise (.int degrees)))

/-- Moves the robot towards an object. -/
def approach (object : Value) : Duty Result := do
  faceTo (← position object)
  discard (Duty.act (.move .forward (.int approachDistance)))
  pure .none

/-- The name of the file of a picture. -/
def pictureFile (number : Nat) : String := "uuid-" ++ toString number ++ ".jpg"

/-- Keeps the picture taken last and shows it to the user. -/
def takePicture : Duty Result := do
  let p ← get
  let file := pictureFile p.pictures
  set { p with pictures := p.pictures + 1 }
  match p.latest with
  | none => throw .noSuchPart
  | some _ =>
    modify fun p => { p with files := p.files ++ [file] }
    Duty.tell (.picture file)
    pure .none

/-- Asks the language model about what is in sight.  The answer is read as a literal of a plan. -/
def probe (question : Value) : Duty Result := do
  let scene ← Duty.describe
  let question ← Duty.conclude question.written
  match ← Duty.consult (questionPrompt scene question) with
  | none => throw .noSuchPart
  | some answer => Result.ofValue <$> Duty.conclude (Plan.literal answer.toList)

/-- Does what an ability stands for. -/
def Ability.perform : Ability → List Value → Duty Result
  | move d, [v] => Robot.Reply.toResult <$> Duty.act (.move d v)
  | turn t, [v] => Robot.Reply.toResult <$> Duty.act (.turn t v)
  | delay, [v] => do
    Duty.sleep v
    pure .none
  | look q, [v] => Duty.see (Sight.answer q v)
  | probe, [v] => Pilot.probe v
  | log, [v] => do
    let shown ← Duty.conclude v.written
    Duty.tell (.text ("[LOG] " ++ shown))
    pure .none
  | takePicture, [] => Pilot.takePicture
  | replan, [] => pure { value := .nothing, replan := true }
  | approach, [v] => Pilot.approach v
  | time, [] => do
    let now ← Duty.now
    pure (.ofValue (.float (now - (← get).began)))
  | _, _ => throw .wrongKind

/-- Runs the ability that a basic skill stands for. -/
def performSkill (s : BasicSkill) (arguments : List Value) : Duty Result :=
  match Ability.named? s.name with
  | some a => a.perform arguments
  | none => throw (.notRunnable s.name)

/-- The skills that plans can call. -/
def kit (c : Collection) : Toolkit Pilot :=
  { low := c.skills 0
    high := c.skills 1
    short := c.short
    perform := fun s arguments p =>
      let (r, p) := (performSkill s arguments).run.run p
      (r.mapError .fault, p) }

/-- Uses a basic skill by its name or short name. -/
def useSkill (name : String) (arguments : List Value) : Duty Result := do
  let c := (← get).collection
  match (c.skills 0).lookup c.short name with
  | some (.basic s) => performSkill s (← s.arguments arguments)
  | _ => throw .noSuchPart

/-- The plan that a composed skill stands for, by its name or short name. -/
def expandSkill (name : String) (arguments : List Value) : Duty String := do
  let c := (← get).collection
  match (c.skills 1).lookup c.short name with
  | some (.composed s) => String.ofList <$> Duty.conclude (s.expand arguments)
  | _ => throw .noSuchPart

end DronePilot.Pilot
