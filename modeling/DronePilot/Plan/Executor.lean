import DronePilot.Plan.Evaluator

/-!
# Executing plans while they are being read

The executor takes statements from a queue in the order in which they became ready and evaluates
each once.  A block becomes ready at its opening brace, so the executor may reach the end of a body
that is still being read; it then waits, and goes on from there in its next turn.  Only a block at
the outermost level can be waited for: statements inside a body are complete when they are listed.

Statements are queued by position.  What a position stands for is looked up in the plan at the time
of the turn, so that a block is always seen with all of its body that has been read.

There is one queue for all executors.  Each plan has an executor of its own, but an executor whose
plan could not be read, or has come to nothing, goes on taking statements, and may take those of the
next plan.
-/

namespace DronePilot.Plan

/-- A plan handed to the executor, with the variables of its own. -/
structure Assignment where
  intake : Intake := {}
  bindings : Variables := Table.empty

/-- A statement in the queue: the number of its plan and its position in it. -/
structure Ticket where
  plan : Nat
  position : Nat
deriving Repr, DecidableEq

/-- The statement at a position: a complete one, or the one under way after them. -/
def Body.statementAt (p : Program) (position : Nat) : Statement :=
  p.statements.getD position p.current

/-- A block that waits for more of its body. -/
structure Pending where
  ticket : Ticket
  /-- How often the body is to be evaluated, the present time included. -/
  rounds : Nat
  last : Result
  /-- The marks of the statements of the body evaluated so far. -/
  trail : Trail Mark

/-- How far the evaluation of a statement from the queue has come. -/
inductive Stage where
  | done (r : Result) (returned : Bool)
  | pending (rounds : Nat) (last : Result) (trail : Trail Mark)

section

variable {σ : Type}

/-- Evaluates the statements of a body that have not been evaluated yet, and the rounds after
that. -/
def Body.proceed (call : Call → Run σ Result) (body : Program) (rounds : Nat) (last : Result)
    (trail : Trail Mark) : Run σ Stage := do
  let p ← runAll call (body.statements.drop trail.inner.length) [] last
  let marks := trail.inner ++ p.marks
  if p.stopped then pure (.done p.result true)
  else if !body.finished then pure (.pending rounds p.result { trail with inner := marks })
  else do
    let (r, _, stopped) ← repeatBody (body.run call) (rounds - 1) p.result
      { trail with inner := marks }
    pure (.done r stopped)

/-- Starts a statement from the queue. -/
def Statement.start (call : Call → Run σ Result) : Statement → Run σ Stage
  | .block d .conditional body => do
    match ← (Condition.ofText d.text.toList).eval call with
    | .replan r => pure (.done r false)
    | .holds false => pure (.done .none false)
    | .holds true => body.proceed call 1 .none .fresh
  | .block _ (.loop n) body =>
    if n.toNat = 0 then pure (.done .none false) else body.proceed call n.toNat .none .fresh
  | s => do
    let (r, m) ← s.run call .fresh
    pure (.done r m.returned)

/-- What the executor is doing. -/
inductive Activity where
  /-- It has nothing to do. -/
  | idle
  /-- It waits for more of a block. -/
  | waiting (p : Pending)
  /-- It has delivered a result. -/
  | ended (r : Result)
  /-- It halted without a result. -/
  | halted (h : Halt)

/-- The executor with the plans handed to it. -/
structure Executor where
  plans : Array Assignment := #[]
  queue : List Ticket := []
  history : List Ticket := []
  /-- The number of statements still expected.  It is set when a plan has been read to its end. -/
  expected : Int := 0
  activity : Activity := .idle

/-- A new executor.  It can only be made when both sets of skills are known. -/
def Executor.make (low high : Option Skills) : Except Fault Executor :=
  match low, high with
  | some _, some _ => .ok {}
  | _, _ => .error .skillsNotReady

/-- The statement that a ticket stands for. -/
def Executor.statement (e : Executor) (t : Ticket) : Statement :=
  match e.plans[t.plan]? with
  | some a => a.intake.program.statementAt t.position
  | none => .fresh

/-- Whether the executor has come to its end, with a result or without. -/
def Executor.isOver (e : Executor) : Bool :=
  match e.activity with
  | .ended _ | .halted _ => true
  | .idle | .waiting _ => false

/-- Books a stage of the evaluation of a statement.  A statement that returned ends the execution
and empties the queue; the last statement expected ends it too. -/
def Executor.book (e : Executor) (t : Ticket) : Except Halt Stage → Executor
  | .error h => { e with activity := .halted h }
  | .ok (.pending rounds last trail) =>
    { e with activity := .waiting { ticket := t, rounds := rounds, last := last, trail := trail } }
  | .ok (.done r true) => { e with queue := [], activity := .ended r }
  | .ok (.done r false) =>
    { e with
      history := e.history ++ [t]
      expected := e.expected - 1
      activity := if e.expected = 1 then .ended r else .idle }

/-- Runs a computation in the variables of the plan of a ticket. -/
def Executor.compute (e : Executor) (world : σ) (t : Ticket) (x : Run σ Stage) :
    Except Halt Stage × Executor × σ :=
  let bindings := match e.plans[t.plan]? with
    | some a => a.bindings
    | none => Table.empty
  let (stage, scope) := x.run.run { world := world, bindings := bindings }
  let plans := e.plans.modify t.plan fun a => { a with bindings := scope.bindings }
  (stage, { e with plans := plans }, scope.world)

/-- Runs a computation in the variables of the plan of a ticket, and books its outcome. -/
def Executor.evaluate (e : Executor) (world : σ) (t : Ticket) (x : Run σ Stage) : Executor × σ :=
  let (stage, e, world) := e.compute world t x
  (e.book t stage, world)

/-- Takes statements from the queue until it is empty, a block has to be waited for, or the
execution is over. -/
def Executor.drain (kit : Toolkit σ) : List Ticket → Executor → σ → Executor × σ
  | [], e, world => ({ e with queue := [] }, world)
  | t :: rest, e, world =>
    let (e, world) :=
      { e with queue := rest }.evaluate world t ((e.statement t).start kit.call)
    match e.activity with
    | .idle => Executor.drain kit rest e world
    | _ => (e, world)

/-- One turn of the executor. -/
def Executor.turn (kit : Toolkit σ) (e : Executor) (world : σ) : Executor × σ :=
  match e.activity with
  | .ended _ | .halted _ => (e, world)
  | .idle => Executor.drain kit e.queue e world
  | .waiting p =>
    let x := match e.statement p.ticket with
      | .block _ _ body => body.proceed kit.call p.rounds p.last p.trail
      | _ => throw .stall
    let (e, world) := e.evaluate world p.ticket x
    match e.activity with
    | .idle => Executor.drain kit e.queue e world
    | _ => (e, world)

/-- An executor left over from an earlier plan. -/
structure Stray where
  /-- The number of statements still expected. -/
  expected : Int
  /-- Somebody still waits for its result. -/
  awaited : Bool
deriving Repr, DecidableEq

/-- What one of the executors left over does to them and to the world with a stage of the evaluation
of a statement, and whether it empties the queue.  It takes no more if it has halted, if it waits
for the rest of a block, and if it has delivered a result; then those who wait for this resume. -/
def Stray.serve (s : Stray) (resume : σ → σ) (i : Nat) (strays : List Stray) (world : σ) :
    Except Halt Stage → Bool × List Stray × σ
  | .error _ | .ok (.pending ..) => (false, strays.eraseIdx i, world)
  | .ok (.done _ returned) =>
    if returned || s.expected == 1 then
      (returned, strays.eraseIdx i, if s.awaited then resume world else world)
    else (false, strays.set i { s with expected := s.expected - 1 }, world)

/-- Who takes a statement from the queue. -/
inductive Taker where
  /-- The executor of the plan. -/
  | own
  /-- An executor left over, by its position among these. -/
  | other (i : Nat) (s : Stray)

/-- Who takes the next statement: the executor left over that is picked, or else the executor of the
plan.  When this one takes no more, the first of the others does, if there is one. -/
def Executor.taker? (e : Executor) (strays : List Stray) (pick : Option Nat) : Option Taker :=
  match pick.bind fun i => (strays[i]?).map (Taker.other i) with
  | some x => some x
  | none =>
    match e.activity with
    | .idle => some .own
    | .waiting _ | .ended _ | .halted _ => strays.head?.map (Taker.other 0)

/-- Takes statements from the queue along with the executors left over, until the executor has
delivered a result or nobody takes any more.  The picks say which of the others is faster, if any,
each time that there is a statement to take; `resume` is what comes next for those who wait for the
result of an executor left over. -/
def Executor.share (kit : Toolkit σ) (resume : σ → σ) :
    List Ticket → List (Option Nat) → Executor → List Stray → σ → Executor × List Stray × σ
  | [], _, e, strays, world => ({ e with queue := [] }, strays, world)
  | t :: rest, picks, e, strays, world =>
    let x := (e.statement t).start kit.call
    match e.taker? strays picks.head?.join with
    | none => ({ e with queue := t :: rest }, strays, world)
    | some .own =>
      let (e, world) := { e with queue := rest }.evaluate world t x
      match e.activity with
      | .ended _ => (e, strays, world)
      | .idle | .waiting _ | .halted _ =>
        Executor.share kit resume rest picks.tail e strays world
    | some (.other i s) =>
      let (stage, e, world) := { e with queue := rest }.compute world t x
      let (emptied, strays, world) := s.serve resume i strays world stage
      if emptied then ({ e with queue := [] }, strays, world)
      else Executor.share kit resume rest picks.tail e strays world

/-- Opens a new plan. -/
def Executor.openPlan (e : Executor) : Executor :=
  { e with plans := e.plans.push {}, history := [] }

/-- Takes a chunk of the newest plan and queues the statements that became ready. -/
def Executor.take (e : Executor) (chunk : Chunk) : Executor × List String × Reading :=
  match e.plans.back? with
  | none => (e, [], .more)
  | some a =>
    let plan := e.plans.size - 1
    let (intake, shown, reading) := a.intake.take chunk
    let fresh := (intake.ready.drop a.intake.ready.length).map fun i =>
      { plan := plan, position := i : Ticket }
    let plans := e.plans.modify plan fun a => { a with intake := intake }
    ({ e with plans := plans, queue := e.queue ++ fresh }, shown, reading)

/-- The newest plan has been read: its statements are the ones expected. -/
def Executor.closePlan (e : Executor) : Executor :=
  match e.plans.back? with
  | none => e
  | some a => { e with expected := a.intake.program.statements.length }

/-- Takes chunks in order until one stops the reading. -/
def Executor.takeAll (e : Executor) : List Chunk → Executor × List String × Reading
  | [] => (e, [], .more)
  | chunk :: rest =>
    match e.take chunk with
    | (e, shown, .more) =>
      let (e, shown', reading) := e.takeAll rest
      (e, shown ++ shown', reading)
    | stopped => stopped

/-- How the reading of a whole plan ended: a failure leaves the number of statements expected as it
was. -/
def Executor.conclude (e : Executor) : Reading → Except Fault Unit × Executor
  | .failed f => (.error f, e)
  | .more | .closed => (.ok (), e.closePlan)

/-- Reads a whole plan, with the messages that show it. -/
def Executor.read (e : Executor) (chunks : List Chunk) : Except Fault Unit × Executor × List String :=
  let (e, shown, reading) := e.openPlan.takeAll chunks
  let (outcome, e) := e.conclude reading
  (outcome, e, shown)

/-- The executor after a turn, with the world at that time. -/
structure Snapshot (σ : Type) where
  executor : Executor
  world : σ

/-- Reads the chunks of a plan with a turn of the executor after each, unless it stops the
reading. -/
def Executor.streamFrom (kit : Toolkit σ) :
    List Chunk → Executor → σ →
      Executor × σ × List (Snapshot σ) × List String × Reading
  | [], e, world => (e, world, [], [], .more)
  | chunk :: rest, e, world =>
    match e.take chunk with
    | (e, shown, .more) =>
      let (e, world) := e.turn kit world
      let (e', world', turns, shown', reading) := Executor.streamFrom kit rest e world
      (e', world', { executor := e, world := world } :: turns, shown ++ shown', reading)
    | (e, shown, reading) => (e, world, [], shown, reading)

/-- Reads a plan with turns of the executor in between and one at the end. -/
def Executor.stream (kit : Toolkit σ) (e : Executor) (chunks : List Chunk) (world : σ) :
    Except Fault Unit × Int × Executor × σ × List (Snapshot σ) × List String :=
  let (e, world, turns, shown, reading) := Executor.streamFrom kit chunks e.openPlan world
  let (outcome, e) := e.conclude reading
  let planned := e.expected
  let (e, world) := e.turn kit world
  (outcome, planned, e, world, turns ++ [{ executor := e, world := world }], shown)

end

/-- A result, or the reason why there is none.  An executor that is idle or waiting will never
deliver one once everything has been read. -/
def Executor.outcome (e : Executor) : Except Halt Result :=
  match e.activity with
  | .ended r => .ok r
  | .halted h => .error h
  | .idle | .waiting _ => .error .stall

/-- The statements executed, as the log shows them. -/
def Executor.renderHistory (e : Executor) : List String :=
  e.history.map fun t => (e.statement t).render

/-- The statements in the queue, as the log shows them. -/
def Executor.renderQueue (e : Executor) : List String :=
  e.queue.map fun t => (e.statement t).render

end DronePilot.Plan
