import DronePilot.Proofs.Computation

/-!
# The equations of evaluation

Statements and bodies are evaluated by one recursion over the tree.  Here each of its cases is an
equation of its own: an action evaluates its expression, a conditional its condition and then its
body, a loop its body again and again, and a sequence goes on until a statement returns or wants to
replan.  `runAll_append` cuts the evaluation of a sequence in two.
-/

namespace DronePilot.Plan

variable {σ : Type} (call : Call → Run σ Result)

/-- An action evaluates the expression of its text and remembers whether that returned. -/
theorem Statement.run_action {d : Draft} (hword : isBlockWord d.text = false) (m : Mark) :
    (Statement.action d).run call m = (do
      Run.setReturned false
      let r ← (Expr.ofText d.text.toList).eval call
      pure (r, .mk (← get).returned m.body)) := by
  cases m with
  | mk returned t => simp [Statement.run, hword, Mark.body]

theorem Statement.exec_run_action {call : Call → Run σ Result} {d : Draft} {e : Expr}
    (hword : isBlockWord d.text = false) (hexpr : Expr.ofText d.text.toList = e) (m : Mark)
    (s : Scope σ) :
    ((Statement.action d).run call m).exec s =
      (do
        let r ← e.eval call
        pure (r, Mark.mk (← get).returned m.body) : Run σ (Result × Mark)).exec
          { s with returned := false } := by
  rw [Statement.run_action call hword, hexpr, Run.exec_bind_ok (Run.exec_setReturned false s)]

/-- A conditional evaluates its body if its condition holds. -/
theorem Statement.run_conditional (d : Draft) (body : Program) (m : Mark) :
    (Statement.block d .conditional body).run call m = (do
      match ← (Condition.ofText d.text.toList).eval call with
      | .replan r => pure (r, m)
      | .holds false => pure (.none, m)
      | .holds true => do
        let (r, t) ← body.run call m.body
        pure (r, .mk (m.returned || r.replan || t.returned) t)) := by
  cases m with
  | mk returned t =>
      cases body with
      | mk statements current depth finished =>
          rw [Statement.run]
          congr 1
          funext v
          cases v with
          | replan r => rfl
          | holds b =>
              cases b with
              | false => rfl
              | true => exact (bind_assoc _ _ _).symm

/-- A loop evaluates its body until it stops, at most as often as its count says. -/
theorem Statement.run_loop (d : Draft) (n : Int) (body : Program) (m : Mark) :
    (Statement.block d (.loop n) body).run call m = (do
      let (r, t, stopped) ← repeatBody (body.run call) n.toNat .none m.body
      pure (r, .mk (m.returned || stopped) t)) := by
  cases m with
  | mk returned t =>
      cases body with
      | mk statements current depth finished => rfl

theorem runAll_nil (marks : List Mark) (last : Result) :
    runAll call [] marks last = pure { result := last, stopped := false, marks := marks } := by
  rw [runAll]

theorem runAll_cons (s : Statement) (rest : List Statement) (marks : List Mark) (last : Result) :
    runAll call (s :: rest) marks last = (do
      let (r, m) ← s.run call (marks.headD .fresh)
      if r.replan || m.returned then do
        Run.record [r.value]
        pure { result := r, stopped := true, marks := m :: marks.tail }
      else do
        let p ← runAll call rest marks.tail r
        pure { p with marks := m :: p.marks }) := by
  rw [runAll]

/-- How the evaluation of a sequence goes whose first statement does not halt it: that statement
stops it with a result that can be written, or the others are evaluated after it. -/
theorem ok_of_exec_runAll_cons {call : Call → Run σ Result} {t : Statement}
    {rest : List Statement} {last : Result} {s s' : Scope σ} {p : Progress}
    (h : (runAll call (t :: rest) [] last).exec s = (.ok p, s')) :
    ∃ r m s₁, (t.run call .fresh).exec s = (.ok (r, m), s₁) ∧
      (((r.replan || m.returned) = true ∧ r.value.isWritable = true ∧ s' = s₁ ∧
        p = { result := r, stopped := true, marks := [m] }) ∨
      ((r.replan || m.returned) = false ∧ ∃ q, (runAll call rest [] r).exec s₁ = (.ok q, s') ∧
        p = { q with marks := m :: q.marks })) := by
  rw [runAll_cons] at h
  simp only [List.headD_nil, List.tail_nil] at h
  obtain ⟨⟨r, m⟩, s₁, ht, h⟩ := Run.ok_of_exec_bind h
  refine ⟨r, m, s₁, ht, ?_⟩
  cases hstops : r.replan || m.returned with
  | true =>
      simp only [hstops, if_true] at h
      obtain ⟨⟨⟩, s₂, hrecord, hend⟩ := Run.ok_of_exec_bind h
      obtain ⟨hwritable, rfl⟩ := Run.ok_of_exec_record hrecord
      cases hend
      exact Or.inl ⟨rfl, hwritable _ List.mem_cons_self, rfl, rfl⟩
  | false =>
      simp only [hstops, Bool.false_eq_true, if_false] at h
      obtain ⟨q, s₂, hrest, h⟩ := Run.ok_of_exec_bind h
      cases h
      exact Or.inr ⟨rfl, q, hrest, rfl⟩

/-- A sequence of statements that were never evaluated is evaluated in two parts, the second one if
the first did not stop. -/
theorem runAll_append (first second : List Statement) (last : Result) :
    runAll call (first ++ second) [] last = (do
      let p ← runAll call first [] last
      if p.stopped then pure p
      else do
        let q ← runAll call second [] p.result
        pure { q with marks := p.marks ++ q.marks }) := by
  induction first generalizing last with
  | nil => simp [runAll_nil]
  | cons s rest ih =>
      rw [List.cons_append, runAll_cons, runAll_cons]
      simp only [List.headD_nil, List.tail_nil, bind_assoc]
      congr 1
      funext x
      obtain ⟨r, m⟩ := x
      cases hstop : r.replan || m.returned with
      | true => simp
      | false =>
          simp only [Bool.false_eq_true, if_false, bind_assoc, pure_bind, ih]
          congr 1
          funext p
          cases hp : p.stopped with
          | true => simp [hp]
          | false => simp

/-- Evaluating a finished plan for the first time is evaluating its statements. -/
theorem Body.exec_run_finish {call : Call → Run σ Result} {p : Program} {s s' : Scope σ}
    {progress : Progress} (h : (runAll call p.statements [] .none).exec s = (.ok progress, s')) :
    (p.finish.run call .fresh).exec s =
      (.ok (progress.result, { returned := progress.stopped, inner := progress.marks }), s') := by
  have hrun : (runAll call p.finish.statements Trail.fresh.inner .none).exec s =
      (.ok progress, s') := h
  rw [Body.run, Run.exec_bind_ok hrun]
  cases hstop : progress.stopped <;> simp [Progress.conclude, hstop, Body.finish, Trail.fresh]

/-- A text cannot be read, or is evaluated as the plan that it reads as, on its own. -/
theorem runText_cases (text : List Char) :
    (∃ f, runText call text = Run.fault f) ∨
      runText call text = Run.isolated (do
        let x ← (Body.fresh.feed text).1.finish.run call .fresh
        pure x.1) := by
  unfold runText
  cases Body.fresh.feed text with
  | mk p reading =>
      cases reading with
      | failed f => exact Or.inl ⟨f, rfl⟩
      | more => exact Or.inr rfl
      | closed => exact Or.inr rfl

/-! ### Calls -/

section

open DronePilot.Skill

variable {kit : Toolkit σ} {depth : Nat} {c : Call} {s : Scope σ} {values : List Value}

/-- A call with an argument that has no value fails before anything is run. -/
theorem Toolkit.exec_callWithin_unresolved {f : Fault}
    (hvalues : c.arguments.mapM (Argument.valueIn s.bindings) = .error f) :
    (kit.callWithin (depth + 1) c).exec s = (.error (.fault f), s) := by
  rw [Toolkit.callWithin, Run.exec_bind, exec_mapM_resolve_eq, hvalues]
  rfl

/-- A call of a basic skill runs it with its arguments, once these have been read. -/
theorem Toolkit.exec_callWithin_basic {skill : BasicSkill} (hname : conversion? c.name = none)
    (hfind : kit.find? c.name = some (.basic skill))
    (hvalues : c.arguments.mapM (Argument.valueIn s.bindings) = .ok values) :
    (kit.callWithin (depth + 1) c).exec s =
      (do
        Run.record values
        let arguments ← Run.lift (skill.arguments values)
        Run.perform kit skill arguments : Run σ Result).exec s := by
  rw [Toolkit.callWithin, Run.exec_bind_ok (exec_mapM_resolve hvalues), hname]
  simp only [hfind]

theorem Toolkit.exec_callWithin_performs {skill : BasicSkill} {arguments : List Value}
    (hname : conversion? c.name = none) (hfind : kit.find? c.name = some (.basic skill))
    (hvalues : c.arguments.mapM (Argument.valueIn s.bindings) = .ok values)
    (hwritable : ∀ v ∈ values, v.isWritable = true)
    (harguments : skill.arguments values = .ok arguments) :
    (kit.callWithin (depth + 1) c).exec s =
      ((kit.perform skill arguments s.world).1,
        { s with world := (kit.perform skill arguments s.world).2 }) := by
  rw [Toolkit.exec_callWithin_basic hname hfind hvalues,
    Run.exec_bind_ok (Run.exec_record hwritable s), harguments,
    Run.exec_bind_ok (Run.exec_lift_ok arguments s), Run.exec_perform]

/-- A call of a composed skill evaluates its plan, once the arguments have been pasted in. -/
theorem Toolkit.exec_callWithin_composed {skill : ComposedSkill} (hname : conversion? c.name = none)
    (hfind : kit.find? c.name = some (.composed skill))
    (hvalues : c.arguments.mapM (Argument.valueIn s.bindings) = .ok values) :
    (kit.callWithin (depth + 1) c).exec s =
      (do
        let text ← Run.lift (skill.expand values)
        let r ← runText (kit.callWithin depth) text
        pure (composedResult skill r) : Run σ Result).exec s := by
  rw [Toolkit.callWithin, Run.exec_bind_ok (exec_mapM_resolve hvalues), hname]
  simp only [hfind]

end

end DronePilot.Plan
