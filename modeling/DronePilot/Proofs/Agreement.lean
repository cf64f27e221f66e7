import DronePilot.Proofs.Delivery

/-!
# The executor and the evaluator

A plan can be executed from the queue, statement by statement, or evaluated as a whole.  The two
differ in when they stop.  Evaluation stops at a statement that returned or that asks for a new
plan, and records the result; the executor stops only at one that returned, and records nothing.

* `Executor.read_eq` — an executor that has read a plan expects all its statements.
* `Executor.drain_tickets` — it then evaluates them one after the other until one returns, which is
  `runToEnd`.
* `exec_runToEnd` — `runToEnd` is an evaluation of the plan, and then of the statements after the
  one that stopped it unless that one returned, if the record does not fail.
* `deferred_follows_evaluation` — so the executor does what evaluation does, and goes on from there
  after a statement that only asked for a new plan.
-/

namespace DronePilot.Plan

variable {σ : Type}

/-- Evaluates statements in order until one of them returns; the result is that of the last one
evaluated. -/
def runToEnd (call : Call → Run σ Result) : List Statement → Result → Run σ Result
  | [], last => pure last
  | s :: rest, _ => do
    let (r, m) ← s.run call .fresh
    if m.returned then pure r else runToEnd call rest r

section

variable {call : Call → Run σ Result}

theorem runToEnd_ignoresFlag (hcall : ∀ c, (call c).IgnoresFlag) (statements : List Statement)
    (last : Result) : (runToEnd call statements last).IgnoresFlag := by
  induction statements generalizing last with
  | nil => exact .pure _
  | cons s rest ih =>
      refine (Statement.run_ignoresFlag hcall s _).bind fun x => ?_
      obtain ⟨r, m⟩ := x
      cases hreturned : m.returned with
      | true => simpa [hreturned] using Run.IgnoresFlag.pure r
      | false => simpa [hreturned] using ih r

/-- The effect of running statements until one returns, by the first of them. -/
theorem effect_runToEnd_cons (hcall : ∀ c, (call c).IgnoresFlag) (t : Statement)
    (rest : List Statement) (last : Result) (s : Scope σ) :
    (runToEnd call (t :: rest) last).effect s =
      match (t.run call .fresh).effect s with
      | (.ok (r, m), s₁) =>
        if m.returned then (.ok r, s₁.lowered) else (runToEnd call rest r).effect s₁
      | (.error f, s₁) => (.error f, s₁) := by
  rw [runToEnd, Run.effect_bind]
  · split
    · rename_i x s₁ hrun
      obtain ⟨r, m⟩ := x
      rw [hrun]
      cases hreturned : m.returned <;> simp [hreturned]
    · rename_i f s₁ hrun
      rw [hrun]
  · rintro ⟨r, m⟩
    cases hreturned : m.returned with
    | true => simpa [hreturned] using Run.IgnoresFlag.pure r
    | false => simpa [hreturned] using runToEnd_ignoresFlag hcall rest r

/-- **Going on after a request for a new plan.**  Running statements until one returns is running
them until one stops and, unless that one returned, going on with those after it.  This is so if the
result with which they stop can be recorded. -/
theorem exec_runToEnd (call : Call → Run σ Result) {statements : List Statement} {last : Result}
    {s : Scope σ}
    (hrecord : ((runAll call statements [] last).exec s).1 ≠ .error (.fault .unwritable)) :
    (runToEnd call statements last).exec s = (do
      let p ← runAll call statements [] last
      if p.marks.any Mark.returned then pure p.result
      else runToEnd call (statements.drop p.marks.length) p.result).exec s := by
  induction statements generalizing last s with
  | nil => simp [runAll_nil, runToEnd]
  | cons t rest ih =>
      rw [runAll_cons] at hrecord ⊢
      rw [runToEnd]
      simp only [List.headD_nil, List.tail_nil, bind_assoc] at hrecord ⊢
      cases hrun : (t.run call .fresh).exec s with
      | mk outcome s₁ =>
          cases outcome with
          | error f => rw [Run.exec_bind_error hrun, Run.exec_bind_error hrun]
          | ok x =>
              obtain ⟨r, m⟩ := x
              rw [Run.exec_bind_ok hrun] at hrecord
              rw [Run.exec_bind_ok hrun, Run.exec_bind_ok hrun]
              cases hstops : r.replan || m.returned with
              | true =>
                  simp only [hstops, if_true] at hrecord ⊢
                  have hwritten : (Run.record [r.value]).exec s₁ = (.ok ⟨⟩, s₁) := by
                    cases hwritable : r.value.isWritable with
                    | true => exact Run.exec_record (List.forall_mem_singleton.2 hwritable) s₁
                    | false =>
                        have hcut := Run.exec_record_error (List.mem_singleton_self _) hwritable s₁
                        rw [Run.exec_bind_error hcut] at hrecord
                        exact absurd rfl hrecord
                  rw [bind_assoc, Run.exec_bind_ok hwritten]
                  simp
              | false =>
                  obtain ⟨-, hreturned⟩ := Bool.or_eq_false_iff.1 hstops
                  simp only [hstops, Bool.false_eq_true, if_false] at hrecord
                  simp only [hreturned, Bool.false_eq_true, if_false, bind_assoc, pure_bind,
                    List.any_cons, Bool.false_or, List.length_cons, List.drop_succ_cons]
                  exact ih fun hcut => hrecord (Run.fst_exec_bind_error hcut _)

/-- A statement that stopped the evaluation and has not returned asked for a new plan. -/
theorem replan_of_exec_runAll {statements : List Statement} {last : Result} {s s' : Scope σ}
    {p : Progress} (h : (runAll call statements [] last).exec s = (.ok p, s'))
    (hstop : p.stopped = true) (hreturned : p.marks.any Mark.returned = false) :
    p.result.replan = true := by
  induction statements generalizing last s p with
  | nil =>
      rw [runAll_nil] at h
      cases h
      cases hstop
  | cons t rest ih =>
      obtain ⟨r, m, s₁, -, ⟨hstops, -, -, rfl⟩ | ⟨-, q, hrest, rfl⟩⟩ :=
        ok_of_exec_runAll_cons h
      · have hm : m.returned = false := by simpa using hreturned
        simpa [hm] using hstops
      · rw [List.any_cons, Bool.or_eq_false_iff] at hreturned
        have hreplan := ih hrest hstop hreturned.2
        exact hreplan

end

/-! ## The executor after the plan has been read -/

/-- An executor of one plan with the plan read to a later point: the statements that became ready
are in its queue. -/
def Executor.readOn (e : Executor) (a : Assignment) (i : Intake) : Executor :=
  { e with
    plans := #[{ a with intake := i }]
    queue := e.queue ++ tickets a.intake.program.issued i.program.issued }

theorem Executor.take_eq_readOn {e : Executor} {a : Assignment} (hplans : e.plans = #[a])
    (hsound : a.intake.Sound) (chunk : Chunk) :
    e.take chunk = (e.readOn a (a.intake.take chunk).1, (a.intake.take chunk).2) := by
  have hready := (hsound.take chunk).1.ready
  simp [Executor.take, hplans, Executor.readOn, tickets, hready, hsound.ready]

/-- Chunks are read into the plan, and what becomes ready is queued. -/
theorem Executor.takeAll_eq_readOn {e : Executor} {a : Assignment} (hplans : e.plans = #[a])
    (hsound : a.intake.Sound) (chunks : List Chunk) :
    (e.takeAll chunks).1 = e.readOn a (a.intake.readAll chunks).1 ∧
      (e.takeAll chunks).2.2 = (a.intake.readAll chunks).2 := by
  induction chunks generalizing e a with
  | nil =>
      refine ⟨?_, rfl⟩
      simp [Executor.takeAll, Executor.readOn, Intake.readAll, Intake.takeAll, tickets_of_le,
        ← hplans]
  | cons chunk rest ih =>
      obtain ⟨hsound', hgrows⟩ := hsound.take chunk
      simp only [Executor.takeAll, Executor.take_eq_readOn hplans hsound, Intake.readAll,
        Intake.takeAll]
      cases htake : a.intake.take chunk with
      | mk i out =>
          obtain ⟨shown, r⟩ := out
          rw [htake] at hsound' hgrows
          cases r with
          | closed => exact ⟨rfl, rfl⟩
          | failed f => exact ⟨rfl, rfl⟩
          | more =>
              have hplans' : (e.readOn a i).plans = #[{ a with intake := i }] := rfl
              obtain ⟨hexecutor, hreading⟩ := ih hplans' hsound'
              refine ⟨hexecutor.trans ?_, hreading⟩
              have hgrows' := (hsound'.takeAll rest).2
              simp only [Executor.readOn, List.append_assoc, Intake.readAll]
              rw [tickets_append hgrows.issued_le hgrows'.issued_le]

/-- **An executor that has read a plan** without a failure has all that can be started of it in its
queue, and expects its statements. -/
theorem Executor.read_eq {chunks : List Chunk}
    (hread : ∀ f, (({} : Intake).readAll chunks).2 ≠ .failed f) :
    (Executor.read {} chunks).2.1 =
      { plans := #[{ intake := (({} : Intake).readAll chunks).1 }]
        queue := tickets 0 (({} : Intake).readAll chunks).1.program.issued
        expected := (({} : Intake).readAll chunks).1.program.statements.length } := by
  have hplans : (({} : Executor).openPlan).plans = #[{}] := rfl
  obtain ⟨hexecutor, hreading⟩ := Executor.takeAll_eq_readOn hplans Intake.sound_fresh chunks
  simp only [Executor.read, hexecutor, hreading]
  cases hfinal : (({} : Intake).readAll chunks).2 with
  | failed f => exact absurd hfinal (hread f)
  | more => rfl
  | closed => rfl

/-- What an executor is doing when the last statement that it evaluates has this outcome. -/
def Activity.over : Except Halt Result → Activity
  | .ok r => .ended r
  | .error f => .halted f

/-- Serving the next statement of a plan evaluates it and books its outcome. -/
theorem Executor.evaluate_start (kit : Toolkit σ) {e : Executor} {a : Assignment}
    (hplans : e.plans = #[a]) (hp : a.intake.program.Sound) {k : Nat}
    (hk : k < a.intake.program.statements.length) {world : σ}
    {outcome : Except Halt (Result × Mark)} {s : Scope σ}
    (h : ((a.intake.program.statements.get ⟨k, hk⟩).run kit.call .fresh).exec
      { world := world, bindings := a.bindings } = (outcome, s)) (queue : List Ticket) :
    { e with queue := queue }.evaluate world { plan := 0, position := k }
        ((e.statement { plan := 0, position := k }).start kit.call) =
      ({ e with plans := #[{ a with bindings := s.bindings }], queue := queue }.book
        { plan := 0, position := k }
        (outcome.map fun (x : Result × Mark) => .done x.1 x.2.returned), s.world) := by
  have hstatement : e.statement { plan := 0, position := k } =
      a.intake.program.statements.get ⟨k, hk⟩ := by
    simp [Executor.statement, hplans, Body.statementAt_lt hk]
  have hexec : ((e.statement { plan := 0, position := k }).start kit.call).exec
      { world := world, bindings := a.bindings } =
        (outcome.map fun x => .done x.1 x.2.returned, s) := by
    rw [hstatement, Statement.exec_start_of_isComplete kit.call (hp.listed _ (List.get_mem _ _)),
      Run.exec_bind, h]
    cases outcome <;> rfl
  have hplans' : ({ e with queue := queue } : Executor).plans = #[a] := hplans
  rw [Executor.evaluate_eq hplans' hexec]

/-- **An executor with statements in its queue** evaluates them one after the other until one of
them returns, and delivers the result of the last one.  What is queued after the listed statements
is not reached. -/
theorem Executor.drain_tickets (kit : Toolkit σ) {p : Program} (hp : p.Sound) {n : Nat}
    (hn : p.statements.length ≤ n) {k : Nat} (hk : k < p.statements.length) {e : Executor}
    {a : Assignment}
    (hplans : e.plans = #[a]) (hprogram : a.intake.program = p)
    (hexpected : e.expected = p.statements.length - k) {world : σ} {last : Result}
    {outcome : Except Halt Result} {s : Scope σ}
    (h : (runToEnd kit.call (p.statements.drop k) last).effect
      { world := world, bindings := a.bindings } = (outcome, s)) :
    (Executor.drain kit (tickets k n) e world).1.activity = .over outcome ∧
      (Executor.drain kit (tickets k n) e world).2 = s.world := by
  -- The induction is on the number of statements that are left.
  induction hleft : p.statements.length - k generalizing k e a world last with
  | zero => omega
  | succ left ih =>
      subst hprogram
      rw [tickets_of_lt (Nat.lt_of_lt_of_le hk hn), Executor.drain]
      cases hrun : ((a.intake.program.statements.get ⟨k, hk⟩).run kit.call .fresh).exec
          { world := world, bindings := a.bindings } with
      | mk outcome₁ s₁ =>
          have heffect := Run.effect_of_exec hrun
          rw [List.get_eq_getElem] at heffect
          rw [List.drop_eq_getElem_cons hk, effect_runToEnd_cons kit.call_ignoresFlag, heffect] at h
          rw [Executor.evaluate_start kit hplans hp hk hrun]
          cases outcome₁ with
          | error f =>
              cases h
              exact ⟨rfl, rfl⟩
          | ok x =>
              obtain ⟨r, m⟩ := x
              cases hreturned : m.returned with
              | true =>
                  simp only [hreturned, if_true] at h
                  cases h
                  simp [Except.map, hreturned, Executor.book, Activity.over, Scope.lowered]
              | false =>
                  simp only [hreturned, Bool.false_eq_true, if_false] at h
                  simp only [Except.map, hreturned]
                  by_cases hlast : k + 1 = a.intake.program.statements.length
                  · rw [Executor.book_last (by simp only; omega)]
                    rw [hlast, List.drop_length] at h
                    cases h
                    exact ⟨rfl, rfl⟩
                  · rw [Executor.book_done (by simp only; omega)]
                    have hsame : ({ a with bindings := s₁.bindings } : Assignment).intake.program =
                        a.intake.program := rfl
                    exact ih (by omega) rfl hsame (by simp only; omega) h (by omega)

/-- The outcome and the world of an executor that has its turn after a plan has been read, which has
at least one statement and leaves no block open. -/
theorem Executor.turn_read (kit : Toolkit σ) {chunks : List Chunk} (world : σ)
    (hread : ∀ f, (({} : Intake).readAll chunks).2 ≠ .failed f)
    (hclosed : (({} : Intake).readAll chunks).1.program.current.isOpenBlock = false)
    (hsome : (({} : Intake).readAll chunks).1.program.statements ≠ [])
    {outcome : Except Halt Result} {s : Scope σ}
    (h : (runToEnd kit.call (({} : Intake).readAll chunks).1.program.statements .none).exec
      { world := world } = (outcome, s)) :
    ((Executor.read {} chunks).2.1.turn kit world).1.activity = .over outcome ∧
      ((Executor.read {} chunks).2.1.turn kit world).2 = s.world := by
  have hsound : (({} : Intake).readAll chunks).1.Sound := (Intake.sound_fresh.takeAll chunks).1
  have hissued : (({} : Intake).readAll chunks).1.program.issued =
      (({} : Intake).readAll chunks).1.program.statements.length := by
    simp [Body.issued, hclosed]
  have heffect : (runToEnd kit.call ((({} : Intake).readAll chunks).1.program.statements.drop 0)
      .none).effect { world := world } = (outcome, s.lowered) := Run.effect_of_exec h
  have hprogram : ({ intake := (({} : Intake).readAll chunks).1 } : Assignment).intake.program =
      (({} : Intake).readAll chunks).1.program := rfl
  rw [Executor.read_eq hread, Executor.turn_of_idle rfl, hissued]
  exact Executor.drain_tickets (s := s.lowered) kit hsound.program (Nat.le_refl _)
    (List.length_pos_iff.2 hsome) rfl hprogram (by simp) heffect

/-- **Executing a plan from the queue follows its evaluation.**  Take a plan that is read without a
failure, with at least one statement and no block left open, and an executor that has its turn after
that and does not halt.  Let the record of its evaluation not fail.  Then the evaluation of the plan
does not halt either.  If it evaluates all statements, or ends with one that returned, the executor
makes the same calls, with the same effects on the world, and delivers the same result.  Otherwise
it ends with a statement that asks for a new plan, and the executor goes on with the statements
after that one. -/
theorem deferred_follows_evaluation (kit : Toolkit σ) (chunks : List Chunk) (world : σ)
    (hread : ∀ f, (({} : Intake).readAll chunks).2 ≠ .failed f)
    (hclosed : (({} : Intake).readAll chunks).1.program.current.isOpenBlock = false)
    (hsome : (({} : Intake).readAll chunks).1.program.statements ≠ [])
    (hhalt : ∀ f, ((Executor.read {} chunks).2.1.turn kit.logged (world, [])).1.activity ≠
      .halted f)
    (hrecord : (((({} : Intake).readAll chunks).1.program.finish.run kit.logged.call .fresh).exec
      { world := (world, []) }).1 ≠ .error (.fault .unwritable)) :
    let plan := (({} : Intake).readAll chunks).1.program
    let deferred := (Executor.read {} chunks).2.1.turn kit.logged (world, [])
    ∃ r t scope,
      (plan.finish.run kit.logged.call .fresh).exec { world := (world, []) } =
        (.ok (r, t), scope) ∧
      (t.inner.any Mark.returned = true ∨ t.inner.length = plan.statements.length →
        deferred.1.activity = .ended r ∧ deferred.2 = scope.world) ∧
      (t.inner.any Mark.returned = false → t.inner.length ≠ plan.statements.length →
        r.replan = true ∧
        ∃ r' scope',
          (runToEnd kit.logged.call (plan.statements.drop t.inner.length) r).exec scope =
            (.ok r', scope') ∧
          deferred.1.activity = .ended r' ∧ deferred.2 = scope'.world) := by
  intro plan deferred
  cases hrun : (runToEnd kit.logged.call plan.statements .none).exec { world := (world, []) } with
  | mk outcome s =>
      obtain ⟨hactivity, hworld⟩ :=
        Executor.turn_read kit.logged (world, []) hread hclosed hsome hrun
      cases outcome with
      | error f => exact absurd hactivity (hhalt f)
      | ok r' =>
          have hwritten : ((runAll kit.logged.call plan.statements [] .none).exec
              { world := (world, []) }).1 ≠ .error (.fault .unwritable) :=
            fun hcut => hrecord (Run.fst_exec_bind_error hcut _)
          rw [exec_runToEnd kit.logged.call hwritten] at hrun
          obtain ⟨p, scope, hall, hrest⟩ := Run.ok_of_exec_bind hrun
          refine ⟨p.result, _, scope, Body.exec_run_finish hall, ?_, ?_⟩
          · intro hends
            have hsame : ((.ok p.result, scope) : Except Halt Result × _) = (.ok r', s) := by
              rw [← hrest]
              cases hreturned : p.marks.any Mark.returned with
              | true => rfl
              | false =>
                  have hlength : p.marks.length = plan.statements.length := by
                    simpa [hreturned] using hends
                  rw [hlength, List.drop_length]
                  rfl
            cases hsame
            exact ⟨hactivity, hworld⟩
          · intro hreturned hleft
            have hstop : p.stopped = true := by
              cases hstop : p.stopped with
              | true => rfl
              | false => exact absurd (unstopped_of_exec_runAll _ hall hstop).1 hleft
            rw [hreturned] at hrest
            exact ⟨replan_of_exec_runAll hall hstop hreturned, r', s, hrest, hactivity, hworld⟩

/-- A robot that counts how often it was asked to, and asks for a new plan at some counts. -/
def wary (asks : Nat → Bool) : Toolkit Nat where
  low := .ofList [("count", .basic counting)]
  perform _ _ n := (.ok { value := .int (n + 1), replan := asks n }, n + 1)

theorem exec_run_wary (asks : Nat → Bool) (n : Nat) (log : List Invocation) :
    ((Statement.action { text := "count", named := true }).run (wary asks).logged.call
      .fresh).exec { world := (n, log) } =
        (.ok ({ value := .int (n + 1), replan := asks n }, .fresh),
          { world := (n + 1, log ++ [{ skill := counting, arguments := [] }]) }) := by
  rw [Statement.exec_run_action rfl ofText_count]
  rfl

theorem exec_run_give (call : Call → Run σ Result) (s : Scope σ) :
    ((Statement.action { text := "->True", named := true }).run call .fresh).exec s =
      (.ok ({ value := .bool true, replan := true }, .mk true .fresh),
        { s with returned := true }) := by
  have htrue : Expr.ofText "True".toList = .literal "True".toList := by
    rw [Expr.ofText]
    rfl
  have hgive : Expr.ofText "->True".toList = .give (.literal "True".toList) := by
    rw [Expr.ofText, ← htrue]
    rfl
  rw [Statement.exec_run_action rfl hgive]
  rfl

/-- **The executor may go on where evaluation stops.**  The robot asks for a new plan when it is
first asked to count.  Evaluated, the plan that counts twice ends there; executed from the queue, it
counts again and delivers a result that does not ask for a new plan. -/
theorem countTwice_goes_on :
    (({} : Intake).readAll countTwice).2 = .more ∧
      (({} : Intake).readAll countTwice).1.program.current.isOpenBlock = false ∧
      (({} : Intake).readAll countTwice).1.program.statements ≠ [] ∧
      ((({} : Intake).readAll countTwice).1.program.finish.run (wary (· == 0)).logged.call
        .fresh).exec { world := (0, []) } =
        (.ok ({ value := .int 1, replan := true }, { returned := true, inner := [.fresh] }),
          { world := (1, [{ skill := counting, arguments := [] }]) }) ∧
      ((Executor.read {} countTwice).2.1.turn (wary (· == 0)).logged (0, [])).1.activity =
        .ended { value := .int 2, replan := false } ∧
      ((Executor.read {} countTwice).2.1.turn (wary (· == 0)).logged (0, [])).2 =
        (2, [{ skill := counting, arguments := [] }, { skill := counting, arguments := [] }]) := by
  have hclosed : (({} : Intake).readAll countTwice).1.program.current.isOpenBlock = false := rfl
  have hsome : (({} : Intake).readAll countTwice).1.program.statements ≠ [] := by rintro ⟨⟩
  have hstatements : (({} : Intake).readAll countTwice).1.program.statements =
      [.action { text := "count", named := true },
       .action { text := "count", named := true }] := rfl
  have hall : (runAll (wary (· == 0)).logged.call
      (({} : Intake).readAll countTwice).1.program.statements [] .none).exec { world := (0, []) } =
      (.ok { result := { value := .int 1, replan := true }, stopped := true, marks := [.fresh] },
        { world := (1, [{ skill := counting, arguments := [] }]) }) := by
    rw [hstatements, runAll_cons, List.headD_nil, Run.exec_bind_ok (exec_run_wary _ 0 [])]
    rfl
  have hend : (runToEnd (wary (· == 0)).logged.call
      (({} : Intake).readAll countTwice).1.program.statements .none).exec { world := (0, []) } =
      (.ok { value := .int 2, replan := false },
        { world := (2, [{ skill := counting, arguments := [] },
          { skill := counting, arguments := [] }]) }) := by
    rw [hstatements, runToEnd, Run.exec_bind_ok (exec_run_wary _ 0 [])]
    simp only [Mark.returned, Mark.fresh, Bool.false_eq_true, if_false]
    rw [runToEnd, Run.exec_bind_ok (exec_run_wary _ 1 _)]
    rfl
  obtain ⟨hactivity, hworld⟩ :=
    Executor.turn_read (wary (· == 0)).logged (0, []) (by rintro f ⟨⟩) hclosed hsome hend
  exact ⟨rfl, hclosed, hsome, Body.exec_run_finish hall, hactivity, hworld⟩

/-- A plan that returns before its end. -/
def returnEarly : List Chunk := [.text "count;->True;count;"]

/-- Executed from the queue, the plan that returns early does what its evaluation does: it counts
once and ends with the value returned. -/
theorem deferred_follows_evaluation_returnEarly :
    (({} : Intake).readAll returnEarly).2 = .more ∧
      (({} : Intake).readAll returnEarly).1.program.current.isOpenBlock = false ∧
      (({} : Intake).readAll returnEarly).1.program.statements ≠ [] ∧
      (∀ f, ((Executor.read {} returnEarly).2.1.turn (wary (· != 0)).logged (0, [])).1.activity ≠
        .halted f) ∧
      (((({} : Intake).readAll returnEarly).1.program.finish.run (wary (· != 0)).logged.call
        .fresh).exec { world := (0, []) }).1 ≠ .error (.fault .unwritable) ∧
      ∃ r t scope,
        ((({} : Intake).readAll returnEarly).1.program.finish.run (wary (· != 0)).logged.call
          .fresh).exec { world := (0, []) } = (.ok (r, t), scope) ∧
        t.inner.any Mark.returned = true ∧
        ((Executor.read {} returnEarly).2.1.turn (wary (· != 0)).logged (0, [])).1.activity =
          .ended r ∧
        ((Executor.read {} returnEarly).2.1.turn (wary (· != 0)).logged (0, [])).2 =
          scope.world := by
  have hclosed : (({} : Intake).readAll returnEarly).1.program.current.isOpenBlock = false := rfl
  have hsome : (({} : Intake).readAll returnEarly).1.program.statements ≠ [] := by rintro ⟨⟩
  have hread : ∀ f, (({} : Intake).readAll returnEarly).2 ≠ .failed f := by rintro f ⟨⟩
  have hstatements : (({} : Intake).readAll returnEarly).1.program.statements =
      [.action { text := "count", named := true }, .action { text := "->True", named := true },
       .action { text := "count", named := true }] := rfl
  have hall : (runAll (wary (· != 0)).logged.call
      (({} : Intake).readAll returnEarly).1.program.statements [] .none).exec { world := (0, []) } =
      (.ok { result := { value := .bool true, replan := true }, stopped := true,
             marks := [.fresh, .mk true .fresh] },
        { world := (1, [{ skill := counting, arguments := [] }]), returned := true }) := by
    rw [hstatements, runAll_cons, List.headD_nil, Run.exec_bind_ok (exec_run_wary _ 0 [])]
    simp only [Mark.returned, Mark.fresh, Bool.or_false, bne_self_eq_false, Bool.false_eq_true,
      if_false, List.tail_nil]
    rw [runAll_cons, List.headD_nil, bind_assoc, Run.exec_bind_ok (exec_run_give _ _)]
    rfl
  have hend : (runToEnd (wary (· != 0)).logged.call
      (({} : Intake).readAll returnEarly).1.program.statements .none).exec { world := (0, []) } =
      (.ok { value := .bool true, replan := true },
        { world := (1, [{ skill := counting, arguments := [] }]), returned := true }) := by
    rw [exec_runToEnd _ (by rw [hall]; simp), Run.exec_bind_ok hall]
    rfl
  have hhalt : ∀ f, ((Executor.read {} returnEarly).2.1.turn (wary (· != 0)).logged
      (0, [])).1.activity ≠ .halted f := by
    rw [(Executor.turn_read (wary (· != 0)).logged (0, []) hread hclosed hsome hend).1]
    rintro f ⟨⟩
  have hrecord : (((({} : Intake).readAll returnEarly).1.program.finish.run
      (wary (· != 0)).logged.call .fresh).exec { world := (0, []) }).1 ≠
        .error (.fault .unwritable) := by
    rw [Body.exec_run_finish hall]
    rintro ⟨⟩
  obtain ⟨r, t, scope, heval, hagree, -⟩ :=
    deferred_follows_evaluation (wary (· != 0)) returnEarly 0 hread hclosed hsome hhalt hrecord
  have hreturned : t.inner.any Mark.returned = true := by
    rw [Body.exec_run_finish hall] at heval
    cases heval
    rfl
  exact ⟨rfl, hclosed, hsome, hhalt, hrecord, r, t, scope, heval, hreturned,
    hagree (Or.inl hreturned)⟩

end DronePilot.Plan
