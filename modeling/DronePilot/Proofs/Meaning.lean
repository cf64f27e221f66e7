import DronePilot.Proofs.Computation

/-!
# The meaning of a plan

What a plan means can be said without any flags or marks.  A plan acts in a *setting*, which has
the world and the variables and nothing else, and every part of it ends in one of two ways: the
plan goes on, or it stops there.

* A simple statement stops the plan if its result asks for a new plan, or if a return was evaluated
  in it.
* A conditional whose condition asks for a new plan stops with that result.  Otherwise its body is
  evaluated if the condition holds, and the conditional stops if its body does.
* A loop evaluates its body as often as its count says, and stops as soon as the body does.
* A sequence of statements goes from left to right until one of them stops.  Its result is that of
  the last statement evaluated.

The body of a composed skill is evaluated in the same way, in a setting without variables.

An evaluation also writes down what happens, and fails where a number is too long to be written.
That is no part of what a plan means, so it is left open here what the writing comes to: `note` says
it of the values that are to be written.  In the meaning proper nothing is written (`unrecorded`).

* `Truncates` — a computation may be cut short by the writing, and is the same otherwise.
* `Statement.truncates`, `Toolkit.truncatesWithin` — so it is with statements and calls.
-/

namespace DronePilot.Plan

open DronePilot.Skill

/-- What a plan acts on: the world and the variables. -/
structure Setting (σ : Type) where
  world : σ
  bindings : Variables := Table.empty

/-- A computation in a setting, which may halt. -/
abbrev Act (σ : Type) := ExceptT Halt (StateM (Setting σ))

/-- Nothing is written down. -/
def unrecorded (_ : List Value) : Except Fault Unit := .ok ()

/-- What an expression gives: its result, and whether a return was evaluated for it. -/
structure Yield where
  result : Result
  returns : Bool

/-- How a part of a plan ends: with a result, and with the plan going on or stopping there. -/
structure Ending where
  result : Result
  stops : Bool

/-- A value for which no return was evaluated. -/
def Yield.ofValue (v : Value) : Yield := { result := .ofValue v, returns := false }

section

variable {σ α β : Type}

/-- Runs a computation from a setting: its value or the reason why it halted, and the setting
then. -/
def Act.exec (x : Act σ α) (setting : Setting σ) : Except Halt α × Setting σ :=
  x.run.run setting

/-- A pure computation that may fail. -/
def Act.lift : Except Fault α → Act σ α
  | .ok a => pure a
  | .error f => throw (.fault f)

/-- Gives a variable a value. -/
def Act.assign (name : String) (v : Value) : Act σ Unit :=
  modify fun s => { s with bindings := s.bindings.insert name v }

/-- The value of an argument among the variables of the setting. -/
def Argument.meaning (a : Argument) : Act σ Value := do
  Act.lift (a.valueIn (← get).bindings)

/-- Runs a basic skill on the world. -/
def Act.perform (kit : Toolkit σ) (s : BasicSkill) (arguments : List Value) : Act σ Result := do
  let setting ← get
  match kit.perform s arguments setting.world with
  | (.ok r, world) => do
    set { setting with world := world }
    pure r
  | (.error h, world) => do
    set { setting with world := world }
    throw h

/-- Runs a computation on the world without variables; the variables around it stay as they are. -/
def Act.isolated (x : Act σ α) : Act σ α := do
  let outer ← get
  let (r, inner) := x.exec { world := outer.world }
  set { outer with world := inner.world }
  match r with
  | .ok a => pure a
  | .error h => throw h

/-- The meaning of an expression; `call` says what calls mean. -/
def Expr.meaning (call : Call → Act σ Result) : Expr → Act σ Yield
  | .const v => pure (.ofValue v)
  | .give e => do
    let y ← e.meaning call
    pure { result := { value := y.result.value, replan := true }, returns := true }
  | .assign name e => do
    let y ← e.meaning call
    Act.assign name y.result.value
    pure y
  | .ambiguous => throw (.fault .malformedAssignment)
  | .binary op left right => do
    let a ← left.meaning call
    let b ← right.meaning call
    let v ← Act.lift (op.apply a.result.value b.result.value)
    pure { result := .ofValue v, returns := a.returns || b.returns }
  | .empty => throw (.fault .emptyOperand)
  | .variable name => do
    let v ← (Argument.variable name).meaning
    pure (.ofValue v)
  | .call c => do
    let r ← call c
    pure { result := r, returns := false }
  | .literal s => do
    let v ← Act.lift (Plan.literal s)
    pure (.ofValue v)

/-- The meaning of a condition. -/
def Condition.meaning (note : List Value → Except Fault Unit) (call : Call → Act σ Result) :
    Condition → Act σ Verdict
  | .both left right => do
    match ← left.meaning note call with
    | .replan r => pure (.replan r)
    | .holds a =>
      match ← right.meaning note call with
      | .replan r => pure (.replan r)
      | .holds b => pure (.holds (a && b))
  | .either left right => do
    match ← left.meaning note call with
    | .replan r => pure (.replan r)
    | .holds true => pure (.holds true)
    | .holds false => right.meaning note call
  | .compare left comparator right => do
    let a ← left.meaning call
    if a.result.replan then pure (.replan a.result)
    else do
      let b ← right.meaning call
      if b.result.replan then pure (.replan b.result)
      else do
        Act.lift (note [a.result.value, b.result.value])
        let holds ← Act.lift (comparator.holds a.result.value b.result.value)
        pure (.holds holds)
  | .malformed => throw (.fault .malformedComparison)

/-- Something done up to so many times, until it stops. -/
def rounds (note : List Value → Except Fault Unit) (once : Act σ Ending) :
    Nat → Result → Act σ Ending
  | 0, last => pure { result := last, stops := false }
  | n + 1, last => do
    Act.lift (note [last.value])
    let e ← once
    if e.stops then pure e else rounds note once n e.result

mutual

/-- The meaning of a statement.  A word that is reserved for blocks means nothing as an action, and
a statement that is not complete has no meaning yet. -/
def Statement.meaning (note : List Value → Except Fault Unit) (call : Call → Act σ Result) :
    Statement → Act σ Ending
  | .action d =>
    if isBlockWord d.text then throw (.fault .wrongKind)
    else do
      let y ← (Expr.ofText d.text.toList).meaning call
      pure { result := y.result, stops := y.result.replan || y.returns }
  | .block d .conditional ⟨statements, _, _, _⟩ => do
    match ← (Condition.ofText d.text.toList).meaning note call with
    | .replan r => pure { result := r, stops := true }
    | .holds false => pure { result := .none, stops := false }
    | .holds true => sequence note call statements .none
  | .block _ (.loop n) ⟨statements, _, _, _⟩ =>
    rounds note (sequence note call statements .none) n.toNat .none
  | .code _ | .condition _ | .count _ => throw .stall

/-- The meaning of statements in a sequence, after one that had the given result. -/
def sequence (note : List Value → Except Fault Unit) (call : Call → Act σ Result) :
    List Statement → Result → Act σ Ending
  | [], last => pure { result := last, stops := false }
  | s :: rest, _ => do
    let e ← s.meaning note call
    if e.stops then do
      Act.lift (note [e.result.value])
      pure e
    else sequence note call rest e.result

end

/-- A conditional means its body if its condition holds. -/
theorem Statement.meaning_conditional (note : List Value → Except Fault Unit)
    (call : Call → Act σ Result) (d : Draft) (body : Program) :
    (Statement.block d .conditional body).meaning note call = (do
      match ← (Condition.ofText d.text.toList).meaning note call with
      | .replan r => pure { result := r, stops := true }
      | .holds false => pure { result := .none, stops := false }
      | .holds true => sequence note call body.statements .none) := by
  rw [Statement.meaning]

/-- A loop means so many rounds of its body. -/
theorem Statement.meaning_loop (note : List Value → Except Fault Unit)
    (call : Call → Act σ Result) (d : Draft) (n : Int) (body : Program) :
    (Statement.block d (.loop n) body).meaning note call =
      rounds note (sequence note call body.statements .none) n.toNat .none := by
  rw [Statement.meaning]

/-- The meaning of a text that is a plan of its own. -/
def textMeaning (note : List Value → Except Fault Unit) (call : Call → Act σ Result)
    (text : List Char) : Act σ Result :=
  match Body.fresh.feed text with
  | (_, .failed f) => throw (.fault f)
  | (p, _) => Act.isolated do
    let e ← sequence note call p.statements .none
    pure e.result

/-- The meaning of a call, with composed skills nested to a given depth at most. -/
def Toolkit.meaningWithin (kit : Toolkit σ) (note : List Value → Except Fault Unit) :
    Nat → Call → Act σ Result
  | 0, _ => throw (.fault .callsTooDeep)
  | depth + 1, c => do
    let arguments ← c.arguments.mapM Argument.meaning
    match conversion? c.name with
    | some kind => do
      let v ← Act.lift (convert kind arguments)
      pure (.ofValue v)
    | none =>
      match kit.find? c.name with
      | some (.basic s) => do
        Act.lift (note arguments)
        let arguments ← Act.lift (s.arguments arguments)
        Act.perform kit s arguments
      | some (.composed s) => do
        let text ← Act.lift (s.expand arguments)
        let r ← textMeaning note (kit.meaningWithin note depth) text
        pure (composedResult s r)
      | some (.unread s) => do
        Act.lift (note arguments)
        let text ← Act.lift (s.expand arguments)
        Act.lift (resultOfText text)
      | some (.misread s) => do
        let read ← Act.lift (s.arguments arguments)
        let r ← Act.perform kit s read
        Act.lift (note (r.value :: arguments))
        let _ ← Act.perform kit s read
        throw (.fault .noSuchPart)
      | none => throw (.fault (.undefinedSkill c.name))

/-- The meaning of a call. -/
def Toolkit.meaning (kit : Toolkit σ) (note : List Value → Except Fault Unit) :
    Call → Act σ Result :=
  kit.meaningWithin note maxCallDepth

/-! ### What the writing changes -/

namespace Act

@[simp]
theorem exec_pure (a : α) (s : Setting σ) : (pure a : Act σ α).exec s = (.ok a, s) := rfl

/-- Acts in order: the second one is carried out if the first one comes to its end. -/
theorem exec_bind (x : Act σ α) (f : α → Act σ β) (s : Setting σ) :
    (x >>= f).exec s =
      match x.exec s with
      | (.ok a, s') => (f a).exec s'
      | (.error h, s') => (.error h, s') := by
  unfold Act.exec
  simp only [ExceptT.run, bind, ExceptT.bind, ExceptT.mk, StateT.run, StateT.bind]
  cases hx : x s with
  | mk r s' =>
      cases r with
      | ok a => rfl
      | error h => rfl

/-- An isolated computation starts without variables, and gives back only the world. -/
theorem exec_isolated (x : Act σ α) (s : Setting σ) :
    (Act.isolated x).exec s =
      ((x.exec { world := s.world }).1,
        { s with world := (x.exec { world := s.world }).2.world }) := by
  have hget : (get : Act σ (Setting σ)).exec s = (.ok s, s) := rfl
  unfold Act.isolated
  rw [exec_bind, hget]
  simp only
  cases x.exec { world := s.world } with
  | mk r inner =>
      cases r with
      | ok a => rfl
      | error h => rfl

end Act

/-- The first computation goes as the second one does, but may be cut short by a number that is too
long to be written. -/
def Truncates (x y : Act σ α) : Prop :=
  ∀ s, (x.exec s).1 ≠ .error (.fault .unwritable) → x.exec s = y.exec s

namespace Truncates

/-- An act truncates itself. -/
theorem refl (x : Act σ α) : Truncates x x := fun _ _ => rfl

/-- Acts in order truncate if both parts do. -/
theorem bind {x y : Act σ α} {f g : α → Act σ β} (hfirst : Truncates x y)
    (hnext : ∀ a, Truncates (f a) (g a)) : Truncates (x >>= f) (y >>= g) := by
  intro s hwritten
  rw [Act.exec_bind] at hwritten ⊢
  rw [Act.exec_bind]
  have hsame := hfirst s
  generalize x.exec s = outcome at hwritten hsame
  obtain ⟨r, s'⟩ := outcome
  cases r with
  | error h =>
      have hhalted : (.error h : Except Halt α) ≠ .error (.fault .unwritable) := by
        intro hcut
        cases hcut
        exact hwritten rfl
      rw [← hsame hhalted]
  | ok a =>
      rw [← hsame (by simp)]
      exact hnext a s' hwritten

/-- Writing that does not fail could as well be left out. -/
theorem note (values : List Value) :
    Truncates (Act.lift (recording values) : Act σ Unit) (Act.lift (unrecorded values)) := by
  intro s hwritten
  unfold recording at hwritten ⊢
  split at hwritten
  · rename_i hall
    rw [if_pos hall]
    rfl
  · exact absurd rfl hwritten

/-- So do acts with variables of their own. -/
theorem isolated {x y : Act σ α} (h : Truncates x y) :
    Truncates (Act.isolated x) (Act.isolated y) := by
  intro s hwritten
  rw [Act.exec_isolated] at hwritten ⊢
  rw [Act.exec_isolated, h _ hwritten]

end Truncates

section

variable {call call' : Call → Act σ Result}

/-- Nothing is written down in an expression but by its calls. -/
theorem Expr.truncates (hcall : ∀ c, Truncates (call c) (call' c)) (e : Expr) :
    Truncates (e.meaning call) (e.meaning call') := by
  induction e with
  | const v => exact .refl _
  | give e ih => exact ih.bind fun y => .refl _
  | assign name e ih => exact ih.bind fun y => .refl _
  | ambiguous => exact .refl _
  | binary op left right ihleft ihright => exact ihleft.bind fun a => ihright.bind fun b => .refl _
  | empty => exact .refl _
  | «variable» name => exact .refl _
  | call c => exact (hcall c).bind fun r => .refl _
  | literal t => exact .refl _

/-- A condition whose operands are written down comes to what it means, or is cut short there. -/
theorem Condition.truncates (hcall : ∀ c, Truncates (call c) (call' c)) (c : Condition) :
    Truncates (c.meaning recording call) (c.meaning unrecorded call') := by
  induction c with
  | both left right ihleft ihright =>
      refine ihleft.bind fun v => ?_
      cases v with
      | replan r => exact .refl _
      | holds a => exact ihright.bind fun v => .refl _
  | either left right ihleft ihright =>
      refine ihleft.bind fun v => ?_
      cases v with
      | replan r => exact .refl _
      | holds a =>
          cases a with
          | true => exact .refl _
          | false => exact ihright
  | compare left comparator right =>
      refine (left.truncates hcall).bind fun a => ?_
      split
      · exact .refl _
      · refine (right.truncates hcall).bind fun b => ?_
        split
        · exact .refl _
        · exact (Truncates.note _).bind fun _ => .refl _
  | malformed => exact .refl _

/-- So do the rounds of a loop. -/
theorem truncates_rounds {once once' : Act σ Ending} (honce : Truncates once once') (n : Nat)
    (last : Result) :
    Truncates (rounds recording once n last) (rounds unrecorded once' n last) := by
  induction n generalizing last with
  | zero => exact .refl _
  | succ n ih =>
      refine (Truncates.note _).bind fun _ => honce.bind fun e => ?_
      cases hstops : e.stops with
      | true => exact .refl _
      | false => exact ih e.result

mutual

/-- So does a statement. -/
theorem Statement.truncates (hcall : ∀ c, Truncates (call c) (call' c)) (t : Statement) :
    Truncates (t.meaning recording call) (t.meaning unrecorded call') := by
  match t with
  | .code d => exact .refl _
  | .condition d => exact .refl _
  | .count d => exact .refl _
  | .action d =>
      simp only [Statement.meaning]
      split
      · exact .refl _
      · exact ((Expr.ofText d.text.toList).truncates hcall).bind fun y => .refl _
  | .block d .conditional ⟨statements, current, depth, finished⟩ =>
      rw [Statement.meaning_conditional, Statement.meaning_conditional]
      refine ((Condition.ofText d.text.toList).truncates hcall).bind fun v => ?_
      cases v with
      | replan r => exact .refl _
      | holds b =>
          cases b with
          | false => exact .refl _
          | true => exact truncates_sequence hcall statements .none
  | .block d (.loop n) ⟨statements, current, depth, finished⟩ =>
      rw [Statement.meaning_loop, Statement.meaning_loop]
      exact truncates_rounds (truncates_sequence hcall statements .none) n.toNat .none

/-- So do statements in order. -/
theorem truncates_sequence (hcall : ∀ c, Truncates (call c) (call' c))
    (statements : List Statement) (last : Result) :
    Truncates (sequence recording call statements last)
      (sequence unrecorded call' statements last) := by
  match statements with
  | [] =>
      rw [sequence, sequence]
      exact .refl _
  | t :: rest =>
      rw [sequence, sequence]
      refine (t.truncates hcall).bind fun e => ?_
      cases hstops : e.stops with
      | true => exact (Truncates.note _).bind fun _ => .refl _
      | false => exact truncates_sequence hcall rest e.result

end

/-- So does a text as a plan of its own. -/
theorem truncates_textMeaning (hcall : ∀ c, Truncates (call c) (call' c)) (text : List Char) :
    Truncates (textMeaning recording call text) (textMeaning unrecorded call' text) := by
  unfold textMeaning
  cases hread : Body.fresh.feed text with
  | mk p reading =>
      have hplan := (truncates_sequence hcall p.statements .none).bind fun e =>
        Truncates.refl (pure e.result)
      cases reading with
      | failed f => exact .refl _
      | _ => exact hplan.isolated

end

/-- Calls are cut short at most, through composed skills nested to any depth. -/
theorem Toolkit.truncatesWithin (kit : Toolkit σ) (depth : Nat) (c : Call) :
    Truncates (kit.meaningWithin recording depth c) (kit.meaningWithin unrecorded depth c) := by
  induction depth generalizing c with
  | zero => exact .refl _
  | succ depth ih =>
      rw [Toolkit.meaningWithin, Toolkit.meaningWithin]
      refine (Truncates.refl _).bind fun arguments => ?_
      cases conversion? c.name with
      | some kind => exact .refl _
      | none =>
          cases kit.find? c.name with
          | none => exact .refl _
          | some skill =>
              cases skill with
              | basic skill => exact (Truncates.note _).bind fun _ => .refl _
              | composed skill =>
                  exact (Truncates.refl _).bind fun text =>
                    (truncates_textMeaning ih text).bind fun r => .refl _
              | unread skill => exact (Truncates.note _).bind fun _ => .refl _
              | misread skill =>
                  exact (Truncates.refl _).bind fun read => (Truncates.refl _).bind fun r =>
                    (Truncates.note _).bind fun _ => .refl _

end

end DronePilot.Plan
