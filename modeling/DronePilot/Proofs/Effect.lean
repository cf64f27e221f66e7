import DronePilot.Proofs.Evaluation

/-!
# The effect of a computation

The flag of a scope says that the statement under way has returned.  An action lowers it first and
reads it last, and nothing else reads it, so no evaluation depends on the flag that it finds.  What
is left of a computation without the flag is its *effect*: its value or the reason why it halted,
the world and the variables.

* `Run.effect_bind` — effects of computations that ignore the flag compose.
* `Statement.run_ignoresFlag`, `runAll_ignoresFlag` — the evaluation of statements ignores the flag.
* `Toolkit.call_ignoresFlag` — so do the calls of every toolkit.
-/

namespace DronePilot.Plan

open DronePilot.Skill

variable {σ α β : Type}

/-- A scope with the flag lowered. -/
def Scope.lowered (s : Scope σ) : Scope σ :=
  { s with returned := false }

/-- Lowering the flag twice is lowering it once. -/
@[simp]
theorem Scope.lowered_lowered (s : Scope σ) : s.lowered.lowered = s.lowered := rfl

/-- What a computation gives and does, apart from the flag. -/
def Run.effect (x : Run σ α) (s : Scope σ) : Except Halt α × Scope σ :=
  ((x.exec s).1, (x.exec s).2.lowered)

/-- The computation has the same effect whether the flag is raised or not. -/
def Run.IgnoresFlag (x : Run σ α) : Prop :=
  ∀ s, x.effect s.lowered = x.effect s

namespace Run

/-- The effect of a computation is its outcome with the flag lowered. -/
theorem effect_of_exec {x : Run σ α} {s s' : Scope σ} {r : Except Halt α}
    (h : x.exec s = (r, s')) : x.effect s = (r, s'.lowered) := by
  simp [effect, h]

@[simp]
theorem effect_pure (a : α) (s : Scope σ) : (pure a : Run σ α).effect s = (.ok a, s.lowered) := rfl

/-- The effect of one computation after another, if the second one ignores the flag. -/
theorem effect_bind (x : Run σ α) {f : α → Run σ β} (hf : ∀ a, (f a).IgnoresFlag) (s : Scope σ) :
    (x >>= f).effect s =
      match x.effect s with
      | (.ok a, s') => (f a).effect s'
      | (.error h, s') => (.error h, s') := by
  cases hx : x.exec s with
  | mk r s' =>
      rw [effect_of_exec hx]
      cases r with
      | ok a =>
          have heffect : (x >>= f).effect s = (f a).effect s' := by
            simp [effect, exec_bind_ok hx]
          rw [heffect]
          exact (hf a s').symm
      | error h => exact effect_of_exec (exec_bind_error hx f)

namespace IgnoresFlag

/-- A computation in two parts ignores the flag if both parts do. -/
theorem bind {x : Run σ α} {f : α → Run σ β} (hx : x.IgnoresFlag) (hf : ∀ a, (f a).IgnoresFlag) :
    (x >>= f).IgnoresFlag := by
  intro s
  rw [effect_bind x hf, effect_bind x hf, hx s]

theorem pure (a : α) : (Pure.pure a : Run σ α).IgnoresFlag := fun _ => rfl

theorem throw (h : Halt) : (MonadExcept.throw h : Run σ α).IgnoresFlag := fun _ => rfl

/-- A pure computation that may fail does not look at the flag. -/
theorem lift (x : Except Fault α) : (Run.lift x : Run σ α).IgnoresFlag := by
  intro s
  cases x <;> rfl

/-- Nor does writing values down. -/
theorem record (values : List Value) : (Run.record values : Run σ Unit).IgnoresFlag := lift _

/-- Nor does giving a variable a value. -/
theorem assign (name : String) (v : Value) : (Run.assign name v : Run σ Unit).IgnoresFlag :=
  fun _ => rfl

/-- A computation that sets the flag first does not see the one that it finds. -/
theorem setReturned_bind (b : Bool) (f : Unit → Run σ α) :
    (Run.setReturned b >>= f).IgnoresFlag := by
  intro s
  simp only [effect, exec_bind_ok (exec_setReturned b _), Scope.lowered]

/-- Nor does reading a variable. -/
theorem readVariable (name : String) : (Run.variable name : Run σ Value).IgnoresFlag := by
  intro s
  simp only [effect, Run.variable, exec_bind_ok (exec_get _), Scope.lowered]
  cases s.bindings.find? name <;> rfl

/-- Nor does running a basic skill. -/
theorem perform (kit : Toolkit σ) (skill : BasicSkill) (arguments : List Value) :
    (Run.perform kit skill arguments).IgnoresFlag := by
  intro s
  simp only [effect, Run.perform, exec_bind_ok (exec_get _), Scope.lowered]
  cases kit.perform skill arguments s.world with
  | mk r world => cases r <;> rfl

/-- A computation on its own starts with a flag of its own. -/
theorem isolated (x : Run σ α) : (Run.isolated x).IgnoresFlag := by
  intro s
  simp only [effect, exec_isolated, Scope.lowered]

end IgnoresFlag

end Run

section

variable {call : Call → Run σ Result}

/-- Evaluating an expression ignores the flag if its calls do: a return raises it, but nothing in an
expression reads it. -/
theorem Expr.eval_ignoresFlag (hcall : ∀ c, (call c).IgnoresFlag) (e : Expr) :
    (e.eval call).IgnoresFlag := by
  induction e with
  | const v => exact .pure _
  | give e _ => exact .setReturned_bind _ _
  | assign name e ih => exact ih.bind fun r => (Run.IgnoresFlag.assign _ _).bind fun _ => .pure _
  | ambiguous => exact .throw _
  | binary op left right ihleft ihright =>
      exact ihleft.bind fun a => ihright.bind fun b =>
        (Run.IgnoresFlag.lift _).bind fun v => .pure _
  | empty => exact .throw _
  | «variable» name => exact (Run.IgnoresFlag.readVariable name).bind fun v => .pure _
  | call c => exact hcall c
  | literal s => exact (Run.IgnoresFlag.lift _).bind fun v => .pure _

/-- So does evaluating a condition. -/
theorem Condition.eval_ignoresFlag (hcall : ∀ c, (call c).IgnoresFlag) (c : Condition) :
    (c.eval call).IgnoresFlag := by
  induction c with
  | both left right ihleft ihright =>
      refine ihleft.bind fun v => ?_
      cases v with
      | replan r => exact .pure _
      | holds a =>
          refine ihright.bind fun v => ?_
          cases v with
          | replan r => exact .pure _
          | holds b => exact .pure _
  | either left right ihleft ihright =>
      refine ihleft.bind fun v => ?_
      cases v with
      | replan r => exact .pure _
      | holds a =>
          cases a with
          | true => exact .pure _
          | false => exact ihright
  | compare left comparator right =>
      refine (Expr.eval_ignoresFlag hcall left).bind fun a => ?_
      split
      · exact .pure _
      · refine (Expr.eval_ignoresFlag hcall right).bind fun b => ?_
        split
        · exact .pure _
        · exact (Run.IgnoresFlag.record _).bind fun _ =>
            (Run.IgnoresFlag.lift _).bind fun holds => .pure _
  | malformed => exact .throw _

/-- Concluding a body ignores the flag, whether the body is finished or not. -/
theorem Progress.conclude_ignoresFlag (p : Progress) (finished : Bool) (t : Trail Mark) :
    (p.conclude finished t : Run σ (Result × Trail Mark)).IgnoresFlag := by
  unfold Progress.conclude
  split
  · exact .pure _
  · split
    · exact .pure _
    · exact .throw _

/-- The rounds of a loop ignore the flag if each of them does. -/
theorem repeatBody_ignoresFlag {once : Trail Mark → Run σ (Result × Trail Mark)}
    (honce : ∀ t, (once t).IgnoresFlag) (n : Nat) (last : Result) (t : Trail Mark) :
    (repeatBody once n last t).IgnoresFlag := by
  induction n generalizing last t with
  | zero => exact .pure _
  | succ n ih =>
      refine (Run.IgnoresFlag.record _).bind fun _ => (honce t).bind fun x => ?_
      obtain ⟨r, t'⟩ := x
      cases hstop : r.replan || t'.returned with
      | true => simpa [hstop] using Run.IgnoresFlag.pure _
      | false => simpa [hstop] using ih r t'

mutual

/-- A statement ignores the flag: an action lowers it before it evaluates anything. -/
theorem Statement.run_ignoresFlag (hcall : ∀ c, (call c).IgnoresFlag) (s : Statement) (m : Mark) :
    (s.run call m).IgnoresFlag := by
  match s with
  | .code d => exact .throw _
  | .condition d => exact .throw _
  | .count d => exact .throw _
  | .action d =>
      cases hword : isBlockWord d.text with
      | true =>
          cases m with
          | mk returned t =>
              simp only [Statement.run, hword, if_true]
              exact .throw _
      | false =>
          rw [Statement.run_action call hword]
          exact .setReturned_bind _ _
  | .block d .conditional ⟨statements, current, depth, finished⟩ =>
      rw [Statement.run_conditional]
      refine (Condition.eval_ignoresFlag hcall _).bind fun v => ?_
      have honce := (runAll_ignoresFlag hcall statements m.body.inner .none).bind fun p =>
        p.conclude_ignoresFlag finished m.body
      cases v with
      | replan r => exact .pure _
      | holds b =>
          cases b with
          | false => exact .pure _
          | true => exact honce.bind fun x => .pure _
  | .block d (.loop n) ⟨statements, current, depth, finished⟩ =>
      rw [Statement.run_loop]
      have honce (t : Trail Mark) :=
        (runAll_ignoresFlag hcall statements t.inner .none).bind fun p =>
          p.conclude_ignoresFlag finished t
      exact (repeatBody_ignoresFlag honce _ _ _).bind fun x => .pure _

/-- So do statements in order. -/
theorem runAll_ignoresFlag (hcall : ∀ c, (call c).IgnoresFlag) (statements : List Statement)
    (marks : List Mark) (last : Result) : (runAll call statements marks last).IgnoresFlag := by
  match statements with
  | [] =>
      rw [runAll_nil]
      exact .pure _
  | s :: rest =>
      rw [runAll_cons]
      refine (Statement.run_ignoresFlag hcall s _).bind fun x => ?_
      obtain ⟨r, m⟩ := x
      cases hstop : r.replan || m.returned with
      | true =>
          simp only [hstop, if_true]
          exact (Run.IgnoresFlag.record _).bind fun _ => .pure _
      | false =>
          have hrest := (runAll_ignoresFlag hcall rest marks.tail r).bind fun p =>
            Run.IgnoresFlag.pure { p with marks := m :: p.marks }
          simpa [hstop] using hrest

end

/-- So does a body. -/
theorem Body.run_ignoresFlag (hcall : ∀ c, (call c).IgnoresFlag) (p : Program) (t : Trail Mark) :
    (p.run call t).IgnoresFlag :=
  (runAll_ignoresFlag hcall p.statements t.inner .none).bind fun progress =>
    progress.conclude_ignoresFlag p.finished t

end

/-- What ignores the flag for each element does so for a list. -/
theorem mapM_ignoresFlag {f : α → Run σ β} (hf : ∀ a, (f a).IgnoresFlag) (xs : List α) :
    (xs.mapM f).IgnoresFlag := by
  induction xs with
  | nil => exact .pure _
  | cons x xs ih =>
      rw [List.mapM_cons]
      exact (hf x).bind fun y => ih.bind fun ys => .pure _

/-- A text that is evaluated as a plan of its own ignores the flag around it. -/
theorem runText_ignoresFlag (call : Call → Run σ Result) (text : List Char) :
    (runText call text).IgnoresFlag := by
  unfold runText
  split
  · exact .throw _
  · exact .isolated _

/-- A call has the same effect wherever it stands. -/
theorem Toolkit.call_ignoresFlag (kit : Toolkit σ) (c : Call) : (kit.call c).IgnoresFlag := by
  unfold Toolkit.call
  generalize maxCallDepth = depth
  cases depth with
  | zero => exact .throw _
  | succ depth =>
      rw [Toolkit.callWithin]
      have hresolve : (c.arguments.mapM Argument.resolve : Run σ (List Value)).IgnoresFlag :=
        mapM_ignoresFlag (fun a => by
          rcases a with name | s
          · exact .readVariable name
          · exact .pure _) _
      refine hresolve.bind fun arguments => ?_
      split
      · exact (Run.IgnoresFlag.lift _).bind fun v => .pure _
      · split
        · exact (Run.IgnoresFlag.record _).bind fun _ =>
            (Run.IgnoresFlag.lift _).bind fun arguments => .perform _ _ _
        · exact (Run.IgnoresFlag.lift _).bind fun text =>
            (runText_ignoresFlag _ _).bind fun r => .pure _
        · exact (Run.IgnoresFlag.record _).bind fun _ =>
            (Run.IgnoresFlag.lift _).bind fun text => .lift _
        · exact (Run.IgnoresFlag.lift _).bind fun read =>
            (Run.IgnoresFlag.perform _ _ _).bind fun r => (Run.IgnoresFlag.record _).bind fun _ =>
              (Run.IgnoresFlag.perform _ _ _).bind fun _ => .throw _
        · exact .throw _

end DronePilot.Plan
