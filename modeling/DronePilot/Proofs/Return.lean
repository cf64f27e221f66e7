import DronePilot.Proofs.Evaluation

/-!
# Returning from a composed skill

A composed skill is a plan, and a plan ends with a value by a statement `->e`.  One flag of a result
says two things: that the plan under way is to be given up for a new one, and that a statement has
returned.  A return sets it, every block and every body that is left by the return hands it on, and
so does the call of a composed skill.  The caller cannot tell the two apart.

`Statement.Returns` and its companions say that an evaluation ends in a return, in whatever nest of
blocks the return stands; `Statement.Returns.run` and its companions say that the result of such an
evaluation then asks for a new plan.  What follows for a caller is `composed_return_replans`: a
conditional on such a call never runs its body, and an assignment of such a call ends the body that
it stands in.
-/

namespace DronePilot

/-- What a return gives: its value, with the flag that asks for a new plan. -/
def Result.returning (v : Value) : Result := { value := v, replan := true }

end DronePilot

namespace DronePilot.Plan

open DronePilot.Skill

variable {σ : Type}

mutual

/-- `s.Returns call m scope v scope'`: evaluating the statement ends in a return of the value. -/
inductive Statement.Returns (call : Call → Run σ Result) :
    Statement → Mark → Scope σ → Value → Scope σ → Prop
  | action {d : Draft} {m : Mark} {e : Expr} {r : Result} {scope scope' : Scope σ}
      (hword : isBlockWord d.text = false)
      (hreturn : Expr.ofText d.text.toList = .give e)
      (hvalue : (e.eval call).exec { scope with returned := true } = (.ok r, scope')) :
      Statement.Returns call (.action d) m scope r.value scope'
  | conditional {d : Draft} {body : Program} {m : Mark} {v : Value}
      {scope inside scope' : Scope σ}
      (hcondition : ((Condition.ofText d.text.toList).eval call).exec scope =
        (.ok (.holds true), inside))
      (hbody : StatementsReturn call body.statements m.body.inner inside v scope') :
      Statement.Returns call (.block d .conditional body) m scope v scope'
  | loop {d : Draft} {n : Int} {body : Program} {m : Mark} {v : Value} {scope scope' : Scope σ}
      (hrounds : RoundsReturn call body n.toNat m.body scope v scope') :
      Statement.Returns call (.block d (.loop n) body) m scope v scope'

/-- Evaluating the statements in order ends in a return of the value, which is recorded. -/
inductive StatementsReturn (call : Call → Run σ Result) :
    List Statement → List Mark → Scope σ → Value → Scope σ → Prop
  | here {s : Statement} {rest : List Statement} {marks : List Mark} {v : Value}
      {scope scope' : Scope σ} (h : Statement.Returns call s (marks.headD .fresh) scope v scope')
      (hwritable : v.isWritable = true) :
      StatementsReturn call (s :: rest) marks scope v scope'
  | later {s : Statement} {rest : List Statement} {marks : List Mark} {m : Mark} {r : Result}
      {v : Value} {scope next scope' : Scope σ}
      (hfirst : (s.run call (marks.headD .fresh)).exec scope = (.ok (r, m), next))
      (hgoing : (r.replan || m.returned) = false)
      (h : StatementsReturn call rest marks.tail next v scope') :
      StatementsReturn call (s :: rest) marks scope v scope'

/-- Evaluating a body up to so many times ends in a return of the value. -/
inductive RoundsReturn (call : Call → Run σ Result) :
    Program → Nat → Trail Mark → Scope σ → Value → Scope σ → Prop
  | now {body : Program} {n : Nat} {t : Trail Mark} {v : Value} {scope scope' : Scope σ}
      (h : StatementsReturn call body.statements t.inner scope v scope') :
      RoundsReturn call body (n + 1) t scope v scope'
  | later {body : Program} {n : Nat} {t t' : Trail Mark} {r : Result} {v : Value}
      {scope next scope' : Scope σ}
      (hround : (body.run call t).exec scope = (.ok (r, t'), next))
      (hgoing : (r.replan || t'.returned) = false) (hwritable : r.value.isWritable = true)
      (h : RoundsReturn call body n t' next v scope') :
      RoundsReturn call body (n + 1) t scope v scope'

end

/-- A value that statements return has been recorded. -/
theorem StatementsReturn.isWritable {call : Call → Run σ Result} {ss : List Statement}
    {marks : List Mark} {scope scope' : Scope σ} {v : Value}
    (h : StatementsReturn call ss marks scope v scope') : v.isWritable = true := by
  match h with
  | .here _ hwritable => exact hwritable
  | .later _ _ h => exact StatementsReturn.isWritable h

/-- A body whose statements end in a return is stopped by it, finished or not. -/
theorem Body.exec_run_of_stopped {call : Call → Run σ Result} {body : Program} {t : Trail Mark}
    {v : Value} {marks : List Mark} {scope scope' : Scope σ}
    (h : (runAll call body.statements t.inner .none).exec scope =
      (.ok { result := Result.returning v, stopped := true, marks := marks }, scope')) :
    (body.run call t).exec scope =
      (.ok (Result.returning v, { returned := true, inner := marks }), scope') := by
  unfold Body.run
  rw [Run.exec_bind_ok h]
  rfl

mutual

/-- The result of a statement that returns has the value and asks for a new plan. -/
theorem Statement.Returns.run {call : Call → Run σ Result} {s : Statement} {m : Mark}
    {scope scope' : Scope σ} {v : Value} (h : Statement.Returns call s m scope v scope') :
    ∃ m', (s.run call m).exec scope = (.ok (Result.returning v, m'), scope') := by
  match h with
  | @Statement.Returns.action _ _ d m e r scope scope' hword hreturn hvalue =>
      refine ⟨.mk scope'.returned m.body, ?_⟩
      rw [Statement.run_action call hword, Run.exec_bind_ok (Run.exec_setReturned _ _), hreturn]
      simp only [Expr.eval, bind_assoc]
      rw [Run.exec_bind_ok (Run.exec_setReturned _ _), Run.exec_bind_ok hvalue]
      rfl
  | @Statement.Returns.conditional _ _ d body m v scope inside scope' hcondition hbody =>
      obtain ⟨marks, hrun⟩ := StatementsReturn.runAll hbody .none
      have hstop := Body.exec_run_of_stopped hrun
      refine ⟨.mk true { returned := true, inner := marks }, ?_⟩
      rw [Statement.run_conditional, Run.exec_bind_ok hcondition]
      simp only
      rw [Run.exec_bind_ok hstop]
      simp [Result.returning]
  | @Statement.Returns.loop _ _ d n body m v scope scope' hrounds =>
      have hlast : Result.none.value.isWritable = true := rfl
      obtain ⟨t, hrun⟩ := RoundsReturn.repeatBody hrounds hlast
      refine ⟨.mk true t, ?_⟩
      rw [Statement.run_loop, Run.exec_bind_ok hrun]
      simp

/-- Statements that end in a return are stopped by it. -/
theorem StatementsReturn.runAll {call : Call → Run σ Result} {ss : List Statement}
    {marks : List Mark} {scope scope' : Scope σ} {v : Value}
    (h : StatementsReturn call ss marks scope v scope') (last : Result) :
    ∃ marks', (runAll call ss marks last).exec scope =
      (.ok { result := Result.returning v, stopped := true, marks := marks' }, scope') := by
  match h with
  | @StatementsReturn.here _ _ s rest marks v scope scope' h hwritable =>
      obtain ⟨m, hrun⟩ := Statement.Returns.run h
      refine ⟨m :: marks.tail, ?_⟩
      have hrecord := Run.exec_record (List.forall_mem_singleton.2 hwritable) scope'
      rw [runAll_cons, Run.exec_bind_ok hrun]
      simp only [Result.returning, Bool.true_or, if_true]
      rw [Run.exec_bind_ok hrecord]
      rfl
  | @StatementsReturn.later _ _ s rest marks m r v scope next scope' hfirst hgoing h =>
      obtain ⟨marks', hrun⟩ := StatementsReturn.runAll h r
      refine ⟨m :: marks', ?_⟩
      rw [runAll_cons, Run.exec_bind_ok hfirst]
      simp only [hgoing, Bool.false_eq_true, if_false]
      rw [Run.exec_bind_ok hrun]
      simp

/-- A loop that ends in a return is stopped by it. -/
theorem RoundsReturn.repeatBody {call : Call → Run σ Result} {body : Program} {n : Nat}
    {t : Trail Mark} {scope scope' : Scope σ} {v : Value}
    (h : RoundsReturn call body n t scope v scope') {last : Result}
    (hlast : last.value.isWritable = true) :
    ∃ t', (repeatBody (body.run call) n last t).exec scope =
      (.ok (Result.returning v, t', true), scope') := by
  have hrecord := Run.exec_record (List.forall_mem_singleton.2 hlast) scope
  match h with
  | @RoundsReturn.now _ _ body n t v scope scope' h =>
      obtain ⟨marks, hrun⟩ := StatementsReturn.runAll h .none
      refine ⟨{ returned := true, inner := marks }, ?_⟩
      rw [Plan.repeatBody, Run.exec_bind_ok hrecord,
        Run.exec_bind_ok (Body.exec_run_of_stopped hrun)]
      simp [Result.returning]
  | @RoundsReturn.later _ _ body n t t' r v scope next scope' hround hgoing hwritable h =>
      obtain ⟨t'', hrun⟩ := RoundsReturn.repeatBody h hwritable
      refine ⟨t'', ?_⟩
      rw [Plan.repeatBody, Run.exec_bind_ok hrecord, Run.exec_bind_ok hround]
      simp only [hgoing, Bool.false_eq_true, if_false]
      exact hrun

end

/-- `kit.CallReturns depth c bindings world v world'`: the call names a composed skill that accepts
its arguments, and the plan that the skill stands for, evaluated on its own, ends in a return of the
value. -/
inductive Toolkit.CallReturns (kit : Toolkit σ) (depth : Nat) (c : Call) (bindings : Variables)
    (world : σ) : Value → σ → Prop
  | mk {s : ComposedSkill} {arguments : List Value} {text : List Char} {plan : Program}
      {reading : Reading} {v : Value} {inner : Scope σ}
      (hname : conversion? c.name = none)
      (hskill : kit.find? c.name = some (.composed s))
      (harguments : c.arguments.mapM (Argument.valueIn bindings) = .ok arguments)
      (hexpand : s.expand arguments = .ok text)
      (hread : Body.fresh.feed text = (plan, reading))
      (hcomplete : ∀ f, reading ≠ .failed f)
      (hreturn : StatementsReturn (kit.callWithin depth) plan.statements [] { world := world } v
        inner) :
      Toolkit.CallReturns kit depth c bindings world v inner.world

theorem Toolkit.CallReturns.isWritable {kit : Toolkit σ} {depth : Nat} {c : Call}
    {bindings : Variables} {world world' : σ} {v : Value}
    (h : kit.CallReturns depth c bindings world v world') : v.isWritable = true := by
  obtain ⟨-, -, -, -, -, -, hreturn⟩ := h
  exact hreturn.isWritable

/-- A text that can be read is evaluated as a plan of its own. -/
theorem exec_runText_of_returns {call : Call → Run σ Result} {text : List Char} {plan : Program}
    {reading : Reading} {scope inner : Scope σ} {v : Value}
    (hread : Body.fresh.feed text = (plan, reading)) (hcomplete : ∀ f, reading ≠ .failed f)
    (hreturn : StatementsReturn call plan.statements [] { world := scope.world } v inner) :
    (runText call text).exec scope =
      (.ok (Result.returning v), { scope with world := inner.world }) := by
  obtain ⟨marks, hrun⟩ := hreturn.runAll .none
  have hplan : (plan.finish.run call .fresh).exec { world := scope.world } = _ :=
    Body.exec_run_of_stopped hrun
  unfold runText
  rw [hread]
  cases reading with
  | failed f => exact absurd rfl (hcomplete f)
  | _ =>
      simp only
      rw [Run.exec_isolated, Run.exec_bind_ok hplan]
      rfl

/-- A value other than a text does not say that a composed skill failed, nor does any text but
one. -/
theorem composedResult_returning (s : ComposedSkill) {v : Value} (hv : v ≠ .text failureWord) :
    composedResult s (Result.returning v) = Result.returning v := by
  have hbeq : (v == .text failureWord) = false := by
    cases v with
    | text t =>
        have ht : t ≠ failureWord := fun h => hv (by rw [h])
        change (t == failureWord) = false
        exact beq_eq_false_iff_ne.mpr ht
    | nothing => rfl
    | bool b => rfl
    | int n => rfl
    | float x => rfl
  unfold composedResult
  rw [show (Result.returning v).value = v from rfl, hbeq]
  rfl

/-- The call of a composed skill that returns gives the value and asks for a new plan.  Only the
world of the caller changes. -/
theorem Toolkit.CallReturns.exec {kit : Toolkit σ} {depth : Nat} {c : Call} {scope : Scope σ}
    {v : Value} {world : σ} (h : kit.CallReturns depth c scope.bindings scope.world v world)
    (hv : v ≠ .text failureWord) :
    (kit.callWithin (depth + 1) c).exec scope =
      (.ok (Result.returning v), { scope with world := world }) := by
  obtain ⟨hname, hskill, harguments, hexpand, hread, hcomplete, hreturn⟩ := h
  rw [Toolkit.callWithin, Run.exec_bind_ok (exec_mapM_resolve harguments)]
  simp only [hname, hskill, hexpand]
  rw [Run.exec_bind_ok (Run.exec_lift_ok _ _),
    Run.exec_bind_ok (exec_runText_of_returns hread hcomplete hreturn),
    composedResult_returning _ hv]
  rfl

/-- The words that stand for blocks are calls, so an assignment is none of them. -/
theorem isBlockWord_of_assign {s x : String} {e : Expr}
    (h : Expr.ofText s.toList = .assign x e) : isBlockWord s = false := by
  have hif : Expr.ofText "if".toList = .call { name := "if", arguments := [] } := by
    rw [Expr.ofText]
    rfl
  have hloop : Expr.ofText "loop".toList = .call { name := "loop", arguments := [] } := by
    rw [Expr.ofText]
    rfl
  rw [Bool.eq_false_iff]
  intro hword
  simp only [isBlockWord, Bool.or_eq_true, beq_iff_eq] at hword
  rcases hword with rfl | rfl
  · rw [hif] at h
    cases h
  · rw [hloop] at h
    cases h

/-- **A return is taken for the wish to replan.**  Let a call name a composed skill whose plan ends
in a return of a value that does not say failure.  The call gives the value, but with the flag that
asks for a new plan.  Hence a conditional that compares the call with anything, by any comparator,
ends with this result and its body is not evaluated; and an assignment of the call, in whatever body
it stands, gives the variable the value and ends the body, so that no later statement of it is
evaluated. -/
theorem composed_return_replans {kit : Toolkit σ} {depth : Nat} {c : Call} (scope : Scope σ)
    {v : Value} {world : σ} (h : kit.CallReturns depth c scope.bindings scope.world v world)
    (hv : v ≠ .text failureWord) :
    (kit.callWithin (depth + 1) c).exec scope =
        (.ok { value := v, replan := true }, { scope with world := world }) ∧
      (∀ d op right body m, Condition.ofText d.text.toList = .compare (.call c) op right →
        ((Statement.block d .conditional body).run (kit.callWithin (depth + 1)) m).exec scope =
          (.ok ({ value := v, replan := true }, m), { scope with world := world })) ∧
      (∀ d x rest marks last, Expr.ofText d.text.toList = .assign x (.call c) →
        (runAll (kit.callWithin (depth + 1)) (.action d :: rest) marks last).exec scope =
          (.ok { result := { value := v, replan := true }
                 stopped := true
                 marks := .mk false (marks.headD .fresh).body :: marks.tail },
            { world := world, bindings := scope.bindings.insert x v, returned := false })) := by
  have hcall := h.exec hv
  refine ⟨hcall, ?_, ?_⟩
  · intro d op right body m hcondition
    have hreplan : ((Condition.ofText d.text.toList).eval (kit.callWithin (depth + 1))).exec scope =
        (.ok (.replan (Result.returning v)), { scope with world := world }) := by
      rw [hcondition, Condition.eval, Expr.eval, Run.exec_bind_ok hcall]
      rfl
    rw [Statement.run_conditional, Run.exec_bind_ok hreplan]
    rfl
  · intro d x rest marks last hassign
    have hstatement : ((Statement.action d).run (kit.callWithin (depth + 1))
        (marks.headD .fresh)).exec scope =
        (.ok (Result.returning v, .mk false (marks.headD .fresh).body),
          { world := world, bindings := scope.bindings.insert x v, returned := false }) := by
      -- The call is evaluated with the flag of the action set back, which it does not read.
      have hcall' : (kit.callWithin (depth + 1) c).exec { scope with returned := false } = _ :=
        Toolkit.CallReturns.exec h hv
      rw [Statement.run_action _ (isBlockWord_of_assign hassign),
        Run.exec_bind_ok (Run.exec_setReturned _ _), hassign]
      simp only [Expr.eval, bind_assoc]
      rw [Run.exec_bind_ok hcall', Run.exec_bind_ok (Run.exec_assign _ _ _)]
      rfl
    rw [runAll_cons, Run.exec_bind_ok hstatement]
    simp only [Result.returning, Bool.true_or, if_true]
    rw [Run.exec_bind_ok (Run.exec_record (List.forall_mem_singleton.2 h.isWritable) _)]
    rfl

/-- Looks for an object. -/
def looking : BasicSkill :=
  { name := "is_visible"
    abbreviation := "iv"
    parameters := [{ name := "object_name", kind := .text }] }

/-- Turns until an object is seen, once around at most. -/
def scanning : ComposedSkill :=
  { name := "scan"
    abbreviation := "s"
    definition := "8\x7b?iv($1)==True\x7b->True\x7dtc(45)\x7d->False;"
    parameters := [{ name := "object_name", kind := .text }]
    placed := true }

/-- A robot that sees whatever it looks for. -/
def searchKit : Toolkit Unit where
  low := .ofList [("is_visible", .basic looking)]
  high := .ofList [("scan", .composed scanning)]
  short := .ofList [("iv", "is_visible"), ("s", "scan")]
  perform _ _ world := (.ok (.ofValue (.bool true)), world)

/-- The search for a bottle. -/
def bottleSearch : Call := { name := "s", arguments := [.text "bottle"] }

/-- The body of the conditional in the search, and the rest of the loop around it. -/
def lookAround : List Statement :=
  [.block { text := "iv(bottle)==True" } .conditional
    { statements := [.action { text := "->True", named := true }]
      current := .fresh
      depth := 0
      finished := true },
   .action { text := "tc(45)", named := true }]

theorem ofText_true : Expr.ofText "True".toList = .literal "True".toList := by
  rw [Expr.ofText]
  rfl

/-- The search sees the object at its first look and returns. -/
theorem searchKit_callReturns :
    searchKit.CallReturns 239 bottleSearch Table.empty () (.bool true) () := by
  have hexpand : scanning.expand [.text "bottle"] =
      .ok "8\x7b?iv(bottle)==True\x7b->True\x7dtc(45)\x7d->False;".toList := rfl
  have hread : Body.fresh.feed
      "8\x7b?iv(bottle)==True\x7b->True\x7dtc(45)\x7d->False;".toList =
      ({ statements :=
          [.block { text := "8" } (.loop 8)
            { statements := lookAround, current := .fresh, depth := 0, finished := true },
           .action { text := "->False", named := true }]
         current := .fresh
         depth := 0
         finished := false }, .more) := rfl
  have hcall : Expr.ofText "iv(bottle)".toList =
      .call { name := "iv", arguments := [.text "bottle"] } := by
    rw [Expr.ofText]
    rfl
  have hlook : ((Condition.ofText "iv(bottle)==True".toList).eval
      (searchKit.callWithin 239)).exec { world := () } = (.ok (.holds true), { world := () }) := by
    change ((Condition.compare (Expr.ofText "iv(bottle)".toList) .equal
      (Expr.ofText "True".toList)).eval (searchKit.callWithin 239)).exec { world := () } = _
    rw [hcall, ofText_true]
    rfl
  have hgive : Expr.ofText "->True".toList = .give (.literal "True".toList) := by
    rw [Expr.ofText, ← ofText_true]
    rfl
  have htrue : ((Expr.literal "True".toList).eval (searchKit.callWithin 239)).exec
      { world := (), returned := true } =
      (.ok (.ofValue (.bool true)), { world := (), returned := true }) := rfl
  have hreturn : Statement.Returns (searchKit.callWithin 239)
      (.action { text := "->True", named := true }) .fresh { world := () } (.bool true)
      { world := (), returned := true } :=
    .action (r := .ofValue (.bool true)) rfl hgive htrue
  exact .mk rfl rfl rfl hexpand hread (by simp)
    (.here (.loop (.now (.here (.conditional hlook (.here hreturn rfl)) rfl))) rfl)

/-- **A search that succeeds is not a value to compare.**  The search for a bottle returns that it
was found, no skill that it uses asks for a new plan, and yet the call does not give the value it
returned as a plain value. -/
theorem bottleSearch_not_plain_value :
    searchKit.CallReturns 239 bottleSearch Table.empty () (.bool true) () ∧
      (∀ s arguments,
        (searchKit.perform s arguments ()).1 = .ok { value := .bool true, replan := false }) ∧
      ((searchKit.call bottleSearch).exec { world := () }).1 ≠
        .ok { value := .bool true, replan := false } := by
  refine ⟨searchKit_callReturns, fun _ _ => rfl, ?_⟩
  have hcall : (searchKit.call bottleSearch).exec { world := () } = _ :=
    Toolkit.CallReturns.exec searchKit_callReturns (by simp)
  rw [hcall]
  intro h
  cases h

/-- The conditional of a plan that looks for a bottle and would go there ends before it is gone
to. -/
theorem composed_return_replans_search :
    searchKit.CallReturns 239 bottleSearch Table.empty () (.bool true) () ∧
      Condition.ofText "s('bottle')==True".toList =
        .compare (.call bottleSearch) .equal (.literal "True".toList) ∧
      ∀ body, ((Statement.block { text := "s('bottle')==True" } .conditional body).run
          searchKit.call .fresh).exec { world := () } =
        (.ok ({ value := .bool true, replan := true }, .fresh), { world := () }) := by
  have hcondition : Condition.ofText "s('bottle')==True".toList =
      .compare (.call bottleSearch) .equal (.literal "True".toList) := by
    have hcall : Expr.ofText "s('bottle')".toList = .call bottleSearch := by
      rw [Expr.ofText]
      rfl
    rw [← hcall, ← ofText_true]
    rfl
  refine ⟨searchKit_callReturns, hcondition, fun body => ?_⟩
  exact (composed_return_replans { world := () } searchKit_callReturns (by simp)).2.1
    { text := "s('bottle')==True" } _ _ body .fresh hcondition

end DronePilot.Plan
