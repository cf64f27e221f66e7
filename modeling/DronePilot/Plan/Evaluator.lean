import DronePilot.Plan.Condition
import DronePilot.Plan.Reader
import DronePilot.Skill.Set
import DronePilot.Value.Order
import DronePilot.Value.Result

/-!
# Evaluating plans

A plan is evaluated in a *scope*: the world that the skills act on, the variables, and a flag that
the statement under way has returned.  What the skills do is not fixed here: a toolkit says which
skills there are and what running a basic one does to the world.

What an evaluation does is also written down, for those who look for its errors: the values with
which something stops, those that are compared and those that a skill is given.  The record is not
kept here, but writing a number fails if it has too many digits.

Statements and bodies are marked when they have returned.  Marks outlive an evaluation, so they
stand in a tree of their own beside the statements: a plan that is evaluated again starts with the
marks of the last time.  A computation that ends in a fault leaves the marks as they were.
-/

namespace DronePilot.Plan

open DronePilot.Skill

/-- The variables of a plan. -/
abbrev Variables := Table String Value

/-- What a running statement can see and change. -/
structure Scope (σ : Type) where
  world : σ
  bindings : Variables := Table.empty
  /-- The statement under way has returned. -/
  returned : Bool := false

/-- A computation in a scope, which may halt. -/
abbrev Run (σ : Type) := ExceptT Halt (StateM (Scope σ))

/-- The skills that plans can call, and what running a basic one does. -/
structure Toolkit (σ : Type) where
  low : Skills := Table.empty
  high : Skills := Table.empty
  short : Abbreviations := Table.empty
  perform : BasicSkill → List Value → σ → Except Halt Result × σ

/-- What a call finds: a skill in the set where it belongs, or one in the other set. -/
inductive Callee where
  | basic (s : BasicSkill)
  | composed (s : ComposedSkill)
  /-- A composed skill among the basic ones: its plan is taken for an answer. -/
  | unread (s : ComposedSkill)
  /-- A basic skill among the composed ones: its answer is taken for a plan. -/
  | misread (s : BasicSkill)

/-- What a skill is in the set of the basic ones. -/
def Callee.ofLow : Skill → Callee
  | .basic s => basic s
  | .composed s => unread s

/-- What a skill is in the set of the composed ones. -/
def Callee.ofHigh : Skill → Callee
  | .basic s => misread s
  | .composed s => composed s

/-- A skill by its name or short name, first in the set of the basic ones. -/
def Toolkit.find? {σ : Type} (kit : Toolkit σ) (name : String) : Option Callee :=
  ((kit.low.lookup kit.short name).map .ofLow).or ((kit.high.lookup kit.short name).map .ofHigh)

/-- Writing values down. -/
def recording (values : List Value) : Except Fault Unit :=
  if values.all Value.isWritable then .ok () else .error .unwritable

section

variable {σ : Type}

/-- Halts with a fault. -/
def Run.fault {α : Type} (f : Fault) : Run σ α :=
  throw (.fault f)

/-- A pure computation that may fail. -/
def Run.lift {α : Type} : Except Fault α → Run σ α
  | .ok a => pure a
  | .error f => Run.fault f

/-- Writes values into the record of the evaluation. -/
def Run.record (values : List Value) : Run σ Unit :=
  Run.lift (recording values)

/-- Notes that the statement under way has returned, or that it has not yet. -/
def Run.setReturned (b : Bool) : Run σ Unit :=
  modify fun s => { s with returned := b }

/-- The value of a variable. -/
def Run.variable (name : String) : Run σ Value := do
  match (← get).bindings.find? name with
  | some v => pure v
  | none => Run.fault (.undefinedVariable name)

/-- Gives a variable a value. -/
def Run.assign (name : String) (v : Value) : Run σ Unit :=
  modify fun s => { s with bindings := s.bindings.insert name v }

/-- Runs a basic skill. -/
def Run.perform (kit : Toolkit σ) (s : BasicSkill) (arguments : List Value) : Run σ Result := do
  let scope ← get
  match kit.perform s arguments scope.world with
  | (.ok r, world) => do
    set { scope with world := world }
    pure r
  | (.error h, world) => do
    set { scope with world := world }
    throw h

/-- Runs a computation with no variables of its own at first.  Whether it halts or not, the
variables and the flag of the scope around it are as before, and the world is as it left it. -/
def Run.isolated {α : Type} (x : Run σ α) : Run σ α := do
  let outer ← get
  let (r, inner) := x.run.run { world := outer.world }
  set { outer with world := inner.world }
  match r with
  | .ok a => pure a
  | .error h => throw h

/-- Evaluates an expression; `call` says what calls do. -/
def Expr.eval (call : Call → Run σ Result) : Expr → Run σ Result
  | .const v => pure (.ofValue v)
  | .give e => do
    Run.setReturned true
    let r ← e.eval call
    pure { value := r.value, replan := true }
  | .assign name e => do
    let r ← e.eval call
    Run.assign name r.value
    pure r
  | .ambiguous => Run.fault .malformedAssignment
  | .binary op left right => do
    let a ← left.eval call
    let b ← right.eval call
    let v ← Run.lift (op.apply a.value b.value)
    pure (.ofValue v)
  | .empty => Run.fault .emptyOperand
  | .variable name => do
    let v ← Run.variable name
    pure (.ofValue v)
  | .call c => call c
  | .literal s => do
    let v ← Run.lift (Plan.literal s)
    pure (.ofValue v)

/-- The outcome of a condition: a truth value, or the result of an operand that wants to replan. -/
inductive Verdict where
  | holds (b : Bool)
  | replan (r : Result)

/-- A verdict as a result. -/
def Verdict.result : Verdict → Result
  | .holds b => .ofValue (.bool b)
  | .replan r => r

/-- Evaluates a condition.  Both sides of a conjunction are evaluated, the right side of a
disjunction only if the left one fails; an operand that wants to replan ends it. -/
def Condition.eval (call : Call → Run σ Result) : Condition → Run σ Verdict
  | .both left right => do
    match ← left.eval call with
    | .replan r => pure (.replan r)
    | .holds a =>
      match ← right.eval call with
      | .replan r => pure (.replan r)
      | .holds b => pure (.holds (a && b))
  | .either left right => do
    match ← left.eval call with
    | .replan r => pure (.replan r)
    | .holds true => pure (.holds true)
    | .holds false => right.eval call
  | .compare left comparator right => do
    let a ← left.eval call
    if a.replan then pure (.replan a)
    else do
      let b ← right.eval call
      if b.replan then pure (.replan b)
      else do
        Run.record [a.value, b.value]
        let holds ← Run.lift (comparator.holds a.value b.value)
        pure (.holds holds)
  | .malformed => Run.fault .malformedComparison

/-- What evaluation remembers of a body: whether it has returned, and the marks of its first
statements. -/
structure Trail (μ : Type) where
  returned : Bool
  inner : List μ

/-- What evaluation remembers of a statement: whether it has returned, and its body. -/
inductive Mark where
  | mk (returned : Bool) (body : Trail Mark)

/-- The trail of a body that was never evaluated. -/
def Trail.fresh : Trail Mark := { returned := false, inner := [] }

/-- The mark of a statement that was never evaluated. -/
def Mark.fresh : Mark := .mk false .fresh

instance : Inhabited Mark := ⟨.fresh⟩

instance : Inhabited (Trail Mark) := ⟨.fresh⟩

/-- Whether the statement has returned. -/
def Mark.returned : Mark → Bool
  | .mk b _ => b

/-- What is remembered of the body. -/
def Mark.body : Mark → Trail Mark
  | .mk _ t => t

/-- How far a sequence of statements was evaluated. -/
structure Progress where
  result : Result
  /-- A statement returned or wants to replan. -/
  stopped : Bool
  marks : List Mark

/-- The end of one evaluation of a body.  A body that is not finished waits for more statements
unless one of those that it has stopped it. -/
def Progress.conclude (p : Progress) (finished : Bool) (t : Trail Mark) :
    Run σ (Result × Trail Mark) :=
  if p.stopped then pure (p.result, { returned := true, inner := p.marks })
  else if finished then pure (p.result, { t with inner := p.marks })
  else throw .stall

/-- Evaluates a body several times, until it stops.  The flag says that it did.  Before each time
the result of the last one is recorded. -/
def repeatBody (once : Trail Mark → Run σ (Result × Trail Mark)) :
    Nat → Result → Trail Mark → Run σ (Result × Trail Mark × Bool)
  | 0, last, t => pure (last, t, false)
  | n + 1, last, t => do
    Run.record [last.value]
    let (r, t) ← once t
    if r.replan || t.returned then pure (r, t, true) else repeatBody once n r t

/-- The words that stand for blocks and cannot be actions. -/
def isBlockWord (s : String) : Bool :=
  s == "if" || s == "loop"

mutual

/-- Evaluates a statement.  A statement that is not complete is waited for. -/
def Statement.run (call : Call → Run σ Result) : Statement → Mark → Run σ (Result × Mark)
  | .action d, .mk _ t =>
    if isBlockWord d.text then Run.fault .wrongKind
    else do
      Run.setReturned false
      let r ← (Expr.ofText d.text.toList).eval call
      pure (r, .mk (← get).returned t)
  | .block d .conditional ⟨statements, _, _, finished⟩, .mk returned t => do
    match ← (Condition.ofText d.text.toList).eval call with
    | .replan r => pure (r, .mk returned t)
    | .holds false => pure (.none, .mk returned t)
    | .holds true => do
      let p ← runAll call statements t.inner .none
      let (r, t) ← p.conclude finished t
      pure (r, .mk (returned || r.replan || t.returned) t)
  | .block _ (.loop n) ⟨statements, _, _, finished⟩, .mk returned t => do
    let once (t : Trail Mark) : Run σ (Result × Trail Mark) := do
      let p ← runAll call statements t.inner .none
      p.conclude finished t
    let (r, t, stopped) ← repeatBody once n.toNat .none t
    pure (r, .mk (returned || stopped) t)
  | .code _, _ | .condition _, _ | .count _, _ => throw .stall

/-- Evaluates statements in order until one of them stops, starting from the result of the one
before.  The result with which they stop is recorded. -/
def runAll (call : Call → Run σ Result) : List Statement → List Mark → Result → Run σ Progress
  | [], marks, last => pure { result := last, stopped := false, marks := marks }
  | s :: rest, marks, _ => do
    let (r, m) ← s.run call (marks.headD .fresh)
    if r.replan || m.returned then do
      Run.record [r.value]
      pure { result := r, stopped := true, marks := m :: marks.tail }
    else do
      let p ← runAll call rest marks.tail r
      pure { p with marks := m :: p.marks }

end

/-- The mark of a statement whose evaluation halted: an action that had returned by then keeps
that, and nothing else changes. -/
def Statement.markHalted (s : Statement) (m : Mark) (returned : Bool) : Mark :=
  match s with
  | .action _ => .mk returned m.body
  | _ => m

/-- Evaluates a statement on its own, with its mark afterwards, also when it halts. -/
def Statement.attempt (call : Call → Run σ Result) (s : Statement) (m : Mark) (scope : Scope σ) :
    Except Halt Result × Mark × Scope σ :=
  match (s.run call m).run.run scope with
  | (.ok (r, m'), scope') => (.ok r, m', scope')
  | (.error h, scope') => (.error h, s.markHalted m scope'.returned, scope')

/-- Evaluates a plan. -/
def Body.run (call : Call → Run σ Result) (p : Program) (t : Trail Mark) :
    Run σ (Result × Trail Mark) := do
  let progress ← runAll call p.statements t.inner .none
  progress.conclude p.finished t

/-- The value of an argument. -/
def Argument.resolve : Argument → Run σ Value
  | .variable name => Run.variable name
  | .text s => pure (.text s)

/-- The conversion of a value to a whole number. -/
def convertWhole : Value → Except Fault Value
  | .text s => Value.int <$> wholeLiteral s.toList
  | v => Value.int <$> v.toWhole

/-- The conversion of a value to a double. -/
def convertReal (v : Value) : Except Fault Value :=
  Value.float <$> v.toReal

/-- A conversion of the first argument. -/
def convert (kind : ParameterKind) (arguments : List Value) : Except Fault Value :=
  match kind, arguments with
  | _, [] => .error .noSuchPosition
  | .int, v :: _ => convertWhole v
  | .float, v :: _ => convertReal v
  | _, v :: _ => .ok v

/-- The value that a composed skill returns to say that it failed. -/
def failureWord : String := "rp"

/-- A composed skill that returns the word of failure asks for a new plan. -/
def composedResult (s : ComposedSkill) (r : Result) : Result :=
  if r.value == .text failureWord then
    { value := .text ("High-level skill " ++ s.name ++ " failed"), replan := true }
  else r

/-- The result that a plan is taken for: its first character, with the wish to replan. -/
def resultOfText : List Char → Except Fault Result
  | c :: _ :: _ => .ok { value := .text (String.singleton c), replan := true }
  | _ => .error .noSuchPosition

/-- Reads and evaluates a text as a plan of its own, isolated from the variables of its caller. -/
def runText (call : Call → Run σ Result) (text : List Char) : Run σ Result :=
  match Body.fresh.feed text with
  | (_, .failed f) => Run.fault f
  | (p, _) => Run.isolated do
    let (r, _) ← p.finish.run call .fresh
    pure r

/-- Evaluates a call, with composed skills nested to a given depth at most. -/
def Toolkit.callWithin (kit : Toolkit σ) : Nat → Call → Run σ Result
  | 0, _ => Run.fault .callsTooDeep
  | depth + 1, c => do
    let arguments ← c.arguments.mapM Argument.resolve
    match conversion? c.name with
    | some kind => do
      let v ← Run.lift (convert kind arguments)
      pure (.ofValue v)
    | none =>
      match kit.find? c.name with
      | some (.basic s) => do
        Run.record arguments
        let arguments ← Run.lift (s.arguments arguments)
        Run.perform kit s arguments
      | some (.composed s) => do
        let text ← Run.lift (s.expand arguments)
        let r ← runText (kit.callWithin depth) text
        pure (composedResult s r)
      | some (.unread s) => do
        Run.record arguments
        let text ← Run.lift (s.expand arguments)
        Run.lift (resultOfText text)
      | some (.misread s) => do
        -- The skill is run once for the record and once for a plan, which its answer is not.
        let read ← Run.lift (s.arguments arguments)
        let r ← Run.perform kit s read
        Run.record (r.value :: arguments)
        let _ ← Run.perform kit s read
        Run.fault .noSuchPart
      | none => Run.fault (.undefinedSkill c.name)

/-- The depth to which calls of composed skills can be nested.  The program sets no such limit: it
stands for the stack of the machine that runs the program, where a skill that calls itself comes to
its end. -/
def maxCallDepth : Nat := 240

/-- Evaluates a call. -/
def Toolkit.call (kit : Toolkit σ) : Call → Run σ Result :=
  kit.callWithin maxCallDepth

end

end DronePilot.Plan
