import DronePilot.Pilot.Skills

/-!
# Missions

A task of the user is turned into a plan by the language model, and the plan is carried out.  The user
is told about the task, the plan while it is read, what the plan has to say, and the end.

A mission may wait for ever for the result of its plan.  Its executor, and that of a plan that could
not be read, may still be there when the next mission begins.
-/

namespace DronePilot.Pilot

open DronePilot.Plan DronePilot.Planner

/-- Why something was not brought to its end. -/
inductive Breakdown where
  | fault (f : Fault)
  /-- A result that will never come is waited for; the execution of the plan halted. -/
  | stall (cause : Halt)

/-- What has been done, as it stands in a prompt. -/
def historyText : Option (List String) → String
  | none => "None"
  | some done => "[" ++ ", ".intercalate done ++ "]"

/-- Asks the language model for a plan. -/
def makePlan (task : String) (scene : Option String) (history : String) : Duty (Option String) := do
  let scene ← match scene with
    | some s => pure s
    | none => Duty.describe
  let c := (← get).collection
  Duty.consult <| PlanQuery.prompt
    { highSkills := (c.skills 1).display
      lowSkills := (c.skills 0).display
      scene := scene
      task := markTask task
      history := history }

/-- The last words on a task. -/
def taskEnded : String := "\n[Task ended]"

/-- The message after which no more will come. -/
def endMessage : String := "end"

/-- The end of a mission. -/
def endMission : Duty Unit := do
  Duty.tell (.text taskEnded)
  Duty.tell (.text endMessage)
  modify fun p => { p with plan := none, history := none }

/-- The executor of a plan that could not be read: it expects nothing, and nobody waits for it. -/
def abandoned : Stray := { expected := 0, awaited := false }

/-- Leaves an executor behind. -/
def leave (s : Stray) (p : Pilot) : Pilot :=
  { p with strays := p.strays ++ [s] }

/-- Carries out a plan, which is read character by character.  Its statements are executed when all of
them have been read, by the executor of the plan or by one left over from an earlier plan.  An
executor that has nothing more to do is left over, too, and so is that of a plan that cannot be
read. -/
def runPlan (code : Option String) (p : Pilot) : Except Breakdown Result × Pilot :=
  match code with
  | none => (.error (.fault .wrongKind), p.leave abandoned)
  | some code =>
    let chunks := code.toList.map fun c => Chunk.text (String.singleton c)
    let (outcome, e, shown) := ({} : Executor).read chunks
    let p := { p with mailbox := p.mailbox.map fun ms => ms ++ shown.map Message.text }
    match outcome with
    | .error f => (.error (.fault f), p.leave abandoned)
    | .ok () =>
      let picks := p.rivalry.current []
      let (e, strays, p) :=
        e.share (kit p.collection) (fun p => (endMission.run.run p).2) e.queue picks p.strays
          { p with history := some [] }
      let p :=
        { p with
          strays := strays
          rivalry := p.rivalry.advance
          history := p.history.map fun _ => e.renderHistory }
      match e.activity with
      | .ended r => (.ok r, p)
      | .halted h => (.error (.stall h), p)
      | .idle => (.error (.stall .stall), p.leave { expected := e.expected, awaited := true })
      | .waiting _ => (.error (.stall .stall), p)

/-- What the user is told while the robot is on the ground. -/
def groundedWarning : String := "[Warning] Controller is waiting for takeoff..."

/-- The beginning of a task. -/
def taskLine (task : String) : String := "[TASK]: " ++ task

/-- The beginning of a plan, which goes on in the same line. -/
def planLine : String := "[Plan]: \\\\"

/-- The beginning of a mission, up to a plan for it. -/
def beginMission (task : String) : Duty (Option String) := do
  Duty.tell (.text (taskLine task))
  let plan ← makePlan task none (historyText (← get).history)
  modify fun p => { p with plan := plan }
  Duty.tell (.text planLine)
  let now ← Duty.now
  modify fun p => { p with began := now }
  pure plan

/-- Carries out a task.  A plan that fails ends the mission like one that succeeds; one whose result
never comes does not. -/
def carryOut (task : String) (p : Pilot) : Except Breakdown Unit × Pilot :=
  if p.grounded then
    let (_, p) := (Duty.tell (.text groundedWarning)).run.run p
    (.ok (), p)
  else
    match (beginMission task).run.run p with
    | (.error f, p) => (.error (.fault f), p)
    | (.ok plan, p) =>
      match runPlan plan p with
      | (.error (.stall h), p) => (.error (.stall h), p)
      | (_, p) =>
        let (_, p) := endMission.run.run p
        (.ok (), p)

end DronePilot.Pilot
