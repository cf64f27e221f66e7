import DronePilot.Proofs.Conduct
import DronePilot.Proofs.Execution
import DronePilot.Proofs.Structured

/-!
# How the execution of a plan ends

The executor has two ways to end.  A statement that returns empties the queue and is not entered in
the history; the last statement expected is entered there and counted off like the others.  Either
way the history, the count and the queue have to fit what was evaluated.

* `Succession` — statements evaluated one after the other, each once.
* `Executor.drain_listed` — serving what is left of a plan: which statements are evaluated, and how
  the executor is left.
* `Statement.Whole.not_stall` — with skills that come back, no statement of a plan waits.
* `execution_takes_leading` — how the execution of a plan that has been read ends.
-/

namespace DronePilot.Plan

variable {σ : Type}

/-- A statement that was evaluated, with its result and whether it returned. -/
structure Evaluated where
  statement : Statement
  result : Result
  returned : Bool

/-- The scope in which a statement is started. -/
def Setting.scope (s : Setting σ) : Scope σ := { world := s.world, bindings := s.bindings }

/-- Evaluations one after the other: each statement is evaluated once, from where the one before
ended, and none halts. -/
inductive Succession (call : Call → Run σ Result) : Setting σ → List Evaluated → Setting σ → Prop
  | nil (s : Setting σ) : Succession call s [] s
  | cons {s finish : Setting σ} {s₁ : Scope σ} {t : Statement} {r : Result} {m : Mark}
      {rest : List Evaluated} (h : (t.run call .fresh).exec s.scope = (.ok (r, m), s₁))
      (hrest : Succession call s₁.setting rest finish) :
      Succession call s ({ statement := t, result := r, returned := m.returned } :: rest) finish

/-! ### Serving what is left of a plan -/

/-- How an executor of one plan is left when its work is done. -/
def Executor.completed (a : Assignment) (bindings : Variables) (done : Nat) (r : Result) :
    Executor where
  plans := #[{ a with bindings := bindings }]
  history := tickets 0 done
  expected := a.intake.program.statements.length - done
  activity := .ended r

/-- The statements that are entered in the history when the last one evaluated is this one. -/
def Evaluated.entered (x : Evaluated) : Nat := if x.returned then 0 else 1

theorem tickets_succ {k n : Nat} (h : k ≤ n) :
    tickets k n ++ [{ plan := 0, position := n }] = tickets k (n + 1) := by
  rw [← tickets_append h (Nat.le_succ n), tickets_of_lt (Nat.lt_succ_self n),
    tickets_of_le (Nat.le_refl (n + 1))]

/-- **Serving what is left of a plan.**  Without a fault, and if no statement waits, the executor
evaluates the statements left in order, up to the first that returns or the last one. -/
theorem Executor.drain_listed (kit : Toolkit σ) {k : Nat} {e : Executor} {a : Assignment}
    (hplans : e.plans = #[a]) (hp : a.intake.program.Sound)
    (hk : k < a.intake.program.statements.length)
    (hexpected : e.expected = a.intake.program.statements.length - k)
    (hhistory : e.history = tickets 0 k) {world : σ}
    (hwait : ∀ t ∈ a.intake.program.statements, ∀ s,
      ((t.run kit.call .fresh).exec s).1 ≠ .error .stall)
    (hfault : ∀ f, (Executor.drain kit (tickets k a.intake.program.statements.length) e
      world).1.activity ≠ .halted (.fault f)) :
    ∃ earlier last finish,
      Succession kit.call { world := world, bindings := a.bindings } (earlier ++ [last]) finish ∧
      (earlier ++ [last]).map Evaluated.statement <+: a.intake.program.statements.drop k ∧
      (∀ x ∈ earlier, x.returned = false) ∧
      (last.returned = true ∨ k + earlier.length + 1 = a.intake.program.statements.length) ∧
      Executor.drain kit (tickets k a.intake.program.statements.length) e world =
        (Executor.completed a finish.bindings (k + earlier.length + last.entered) last.result,
          finish.world) := by
  -- The induction is on the number of statements that are left.
  induction hleft : a.intake.program.statements.length - k generalizing k e a world with
  | zero => omega
  | succ left ih =>
      rw [tickets_of_lt hk, Executor.drain] at hfault ⊢
      cases hrun : ((a.intake.program.statements.get ⟨k, hk⟩).run kit.call .fresh).exec
          { world := world, bindings := a.bindings } with
      | mk outcome s =>
          rw [Executor.evaluate_start kit hplans hp hk hrun] at hfault ⊢
          have hdrop := List.drop_eq_getElem_cons hk
          cases outcome with
          | error f =>
              cases f with
              | fault f => exact absurd rfl (hfault f)
              | stall => exact absurd (congrArg Prod.fst hrun) (hwait _ (List.get_mem _ _) _)
          | ok x =>
              obtain ⟨r, m⟩ := x
              have hnil : Succession kit.call s.setting [] s.setting := .nil _
              have hone : Succession kit.call { world := world, bindings := a.bindings }
                  [⟨a.intake.program.statements.get ⟨k, hk⟩, r, m.returned⟩] s.setting :=
                .cons hrun hnil
              have hfirst : [a.intake.program.statements.get ⟨k, hk⟩] <+:
                  a.intake.program.statements.drop k := ⟨_, hdrop.symm⟩
              cases hreturned : m.returned with
              | true =>
                  refine ⟨[], _, s.setting, hone, hfirst, by simp, Or.inl hreturned, ?_⟩
                  simp [Except.map, hreturned, Executor.book, Executor.completed, hhistory,
                    hexpected, Evaluated.entered, Scope.setting]
              | false =>
                  simp only [Except.map, hreturned] at hfault ⊢
                  by_cases hlast : k + 1 = a.intake.program.statements.length
                  · rw [Executor.book_last (by simp only; omega)]
                    refine ⟨[], _, s.setting, hone, hfirst, by simp, Or.inr hlast, ?_⟩
                    simp [Executor.completed, hhistory, tickets_succ, Evaluated.entered, hreturned,
                      Scope.setting, ← hlast, tickets_of_le]
                  · rw [Executor.book_done (by simp only; omega)] at hfault ⊢
                    have hnext : e.history ++ [{ plan := 0, position := k }] =
                        tickets 0 (k + 1) := by
                      rw [hhistory, tickets_succ (Nat.zero_le k)]
                    obtain ⟨earlier, last, finish, hsuccession, hleading, hunreturned, hstops,
                      hdrain⟩ := ih (a := { a with bindings := s.bindings }) rfl hp
                        (by simp only; omega) (by simp only; omega) hnext hwait hfault
                        (by simp only; omega)
                    refine ⟨⟨_, r, m.returned⟩ :: earlier, last, finish, .cons hrun hsuccession,
                      ?_, ?_, ?_, ?_⟩
                    · rw [hdrop]
                      exact (List.prefix_cons_inj _).2 hleading
                    · simpa [hreturned] using hunreturned
                    · refine hstops.imp_right fun hend => ?_
                      rw [List.length_cons, ← hend]
                      omega
                    · have hlength : k + (earlier.length + 1) + last.entered =
                          k + 1 + earlier.length + last.entered := by omega
                      rw [List.length_cons, hlength]
                      exact hdrain

/-! ### Waiting -/

/-- Every skill comes back, with a result or with a fault. -/
def Toolkit.ComesBack (kit : Toolkit σ) : Prop :=
  ∀ skill arguments world, (kit.perform skill arguments world).1 ≠ .error .stall

/-- With skills that come back, evaluations do not wait. -/
def Toolkit.ComesBack.conduct {kit : Toolkit σ} (h : kit.ComesBack) : Conduct kit :=
  Conduct.ofWorld kit (fun _ _ => True) (fun _ f => f ≠ .stall) (fun _ => trivial)
    (fun _ _ => trivial) (fun _ _ hstall => by cases hstall)
    (by
      intro skill arguments world
      refine ⟨trivial, ?_⟩
      intro f hanswer hstall
      subst hstall
      exact h skill arguments world hanswer)

theorem Statement.Whole.not_stall {kit : Toolkit σ} (hback : kit.ComesBack) {t : Statement}
    (h : t.Whole) (m : Mark) (s : Scope σ) : ((t.run kit.call m).exec s).1 ≠ .error .stall := by
  have hholds : hback.conduct.Holds s := fun _ _ _ => trivial
  have hkeeps := h.keeps hback.conduct.callsKeep m s hholds
  intro hstall
  exact hkeeps.halts hstall rfl

/-! ### How the execution ends -/

/-- How an executor comes to the end of a plan: it evaluated the statements `earlier`, and `last`
after them. -/
structure Completion (kit : Toolkit σ) (plan : Program) (world : σ) (after : Executor × σ)
    (earlier : List Evaluated) (last : Evaluated) : Prop where
  /-- The statements that were evaluated are the first ones of the plan, in their order. -/
  leading : (earlier ++ [last]).map Evaluated.statement <+: plan.statements
  /-- Each of them was evaluated once, from where the one before ended, and nothing else was. -/
  evaluated : ∃ finish, Succession kit.call { world := world } (earlier ++ [last]) finish ∧
    after.2 = finish.world ∧ after.1.plans.map Assignment.bindings = #[finish.bindings]
  /-- The last one is the first that returned, or the last one of the plan. -/
  unreturned : ∀ x ∈ earlier, x.returned = false
  stops : last.returned = true ∨ earlier.length + 1 = plan.statements.length
  /-- One result was delivered, and the executor will do no more. -/
  results : after.1.results = [last.result]
  ended : ∀ world', after.1.turn kit world' = (after.1, world')
  queue : after.1.queue = []
  /-- A statement that returned is not in the history; all others that were evaluated are. -/
  history : after.1.history.map after.1.statement =
    if last.returned then earlier.map Evaluated.statement else plan.statements
  expected : after.1.expected = plan.statements.length - after.1.history.length

/-- The tickets of the first statements of a plan stand for these statements. -/
theorem map_statement_tickets {e : Executor} {a : Assignment} (hplans : e.plans = #[a]) {n : Nat}
    (hn : n ≤ a.intake.program.statements.length) :
    (tickets 0 n).map e.statement = a.intake.program.statements.take n := by
  apply List.ext_getElem
  · simp [tickets, hn]
  · intro i hi hi'
    have hlisted : i < a.intake.program.statements.length := by
      simp only [List.length_take] at hi'
      omega
    simp [tickets, Executor.statement, hplans, Body.statementAt_lt hlisted]

/-- The history at the end: with the last statement evaluated, unless it returned. -/
theorem Completion.of_completed {kit : Toolkit σ} {a : Assignment} {world : σ}
    {earlier : List Evaluated} {last : Evaluated} {finish : Setting σ}
    (hsuccession : Succession kit.call { world := world } (earlier ++ [last]) finish)
    (hleading : (earlier ++ [last]).map Evaluated.statement <+: a.intake.program.statements)
    (hunreturned : ∀ x ∈ earlier, x.returned = false)
    (hstops : last.returned = true ∨ earlier.length + 1 = a.intake.program.statements.length) :
    Completion kit a.intake.program world
      (Executor.completed a finish.bindings (earlier.length + last.entered) last.result,
        finish.world) earlier last := by
  have hlength : earlier.length + 1 ≤ a.intake.program.statements.length := by
    simpa using hleading.length_le
  have hentered : last.entered ≤ 1 := by
    unfold Evaluated.entered
    split <;> omega
  have hhistory : (Executor.completed a finish.bindings (earlier.length + last.entered)
      last.result).history = tickets 0 (earlier.length + last.entered) := rfl
  refine
    { leading := hleading
      evaluated := ⟨finish, hsuccession, rfl, by simp [Executor.completed]⟩
      unreturned := hunreturned
      stops := hstops
      results := rfl
      ended := fun world' => Executor.turn_of_isOver rfl
      queue := rfl
      history := ?_
      expected := ?_ }
  · rw [hhistory, map_statement_tickets (a := { a with bindings := finish.bindings }) rfl
      (by simp only; omega)]
    cases hreturned : last.returned with
    | true =>
        have hearlier : earlier.map Evaluated.statement <+: a.intake.program.statements := by
          rw [List.map_append] at hleading
          exact (List.prefix_append _ _).trans hleading
        have htake := List.prefix_iff_eq_take.1 hearlier
        rw [List.length_map] at htake
        simp [Evaluated.entered, hreturned, ← htake]
    | false =>
        have hall : earlier.length + 1 = a.intake.program.statements.length := by
          simpa [hreturned] using hstops
        simp [Evaluated.entered, hreturned, hall]
  · rw [hhistory]
    simp [Executor.completed, tickets]

/-- **How the execution of a plan ends.**  Take a plan that is read without a failure, with at least
one statement and no block left open, skills that come back, and an executor that has its turn after
that and does not end with a fault.  Then the executor evaluates the statements of the plan in order
and each once, up to the first that returns, or all if none does.  It delivers one result, that of
the last statement evaluated, and is over.  Its queue is empty; its history has the statements
before the one that returned, or all; and the count is the number of statements of the plan that are
not in the history. -/
theorem execution_takes_leading (kit : Toolkit σ) (hback : kit.ComesBack) (chunks : List Chunk)
    (world : σ) (hread : ∀ f, (({} : Intake).readAll chunks).2 ≠ .failed f)
    (hclosed : (({} : Intake).readAll chunks).1.program.current.isOpenBlock = false)
    (hsome : (({} : Intake).readAll chunks).1.program.statements ≠ [])
    (hfault : ∀ f, ((Executor.read {} chunks).2.1.turn kit world).1.activity ≠
      .halted (.fault f)) :
    ∃ earlier last, Completion kit (({} : Intake).readAll chunks).1.program world
      ((Executor.read {} chunks).2.1.turn kit world) earlier last := by
  have hsound : (({} : Intake).readAll chunks).1.Sound := (Intake.sound_fresh.takeAll chunks).1
  have hwhole : (({} : Intake).readAll chunks).1.program.WellRead :=
    (Intake.reaches_readAll {} chunks).wellKept.toWellRead
  have hissued : (({} : Intake).readAll chunks).1.program.issued =
      (({} : Intake).readAll chunks).1.program.statements.length := by
    simp [Body.issued, hclosed]
  have hwait : ∀ t ∈ (({} : Intake).readAll chunks).1.program.statements, ∀ s,
      ((t.run kit.call .fresh).exec s).1 ≠ .error .stall :=
    fun t ht s => (hwhole.listed t ht).not_stall hback .fresh s
  rw [Executor.read_eq hread, Executor.turn_of_idle rfl, hissued] at hfault ⊢
  obtain ⟨earlier, last, finish, hsuccession, hleading, hunreturned, hstops, hdrain⟩ :=
    Executor.drain_listed (k := 0) (a := { intake := (({} : Intake).readAll chunks).1 }) kit rfl
      hsound.program (List.length_pos_iff.2 hsome) (by simp) rfl hwait hfault
  rw [Nat.zero_add] at hdrain hstops
  refine ⟨earlier, last, ?_⟩
  rw [hdrain]
  exact Completion.of_completed hsuccession hleading hunreturned hstops

theorem counter_comesBack : counter.ComesBack := by
  intro skill arguments world h
  cases h

/-- The plan that returns early counts once and ends with the value returned. -/
theorem exec_runToEnd_returnEarly :
    (runToEnd counter.call (({} : Intake).readAll returnEarly).1.program.statements .none).exec
      { world := 0 } =
        (.ok { value := .bool true, replan := true }, { world := 1, returned := true }) := by
  have hstatements : (({} : Intake).readAll returnEarly).1.program.statements =
      [.action { text := "count", named := true }, .action { text := "->True", named := true },
       .action { text := "count", named := true }] := rfl
  rw [hstatements, runToEnd, Run.exec_bind_ok (exec_run_count 0)]
  simp only [Mark.returned, Mark.fresh, Bool.false_eq_true, if_false]
  rw [runToEnd, Run.exec_bind_ok (exec_run_give _ _)]
  rfl

/-- Executing the plan that returns early ends with its second statement. -/
theorem execution_takes_leading_returnEarly :
    counter.ComesBack ∧ (({} : Intake).readAll returnEarly).2 = .more ∧
      (({} : Intake).readAll returnEarly).1.program.current.isOpenBlock = false ∧
      (({} : Intake).readAll returnEarly).1.program.statements ≠ [] ∧
      ((Executor.read {} returnEarly).2.1.turn counter 0).1.activity =
        .ended { value := .bool true, replan := true } ∧
      ∃ earlier last, Completion counter (({} : Intake).readAll returnEarly).1.program 0
        ((Executor.read {} returnEarly).2.1.turn counter 0) earlier last ∧
          last.result = { value := .bool true, replan := true } := by
  have hclosed : (({} : Intake).readAll returnEarly).1.program.current.isOpenBlock = false := rfl
  have hsome : (({} : Intake).readAll returnEarly).1.program.statements ≠ [] := by rintro ⟨⟩
  have hread : ∀ f, (({} : Intake).readAll returnEarly).2 ≠ .failed f := by rintro f ⟨⟩
  have hactivity :=
    (Executor.turn_read counter 0 hread hclosed hsome exec_runToEnd_returnEarly).1
  have hfault : ∀ f, ((Executor.read {} returnEarly).2.1.turn counter 0).1.activity ≠
      .halted (.fault f) := by
    rw [hactivity]
    rintro f ⟨⟩
  obtain ⟨earlier, last, hcompletion⟩ := execution_takes_leading counter counter_comesBack
    returnEarly 0 hread hclosed hsome hfault
  refine ⟨counter_comesBack, rfl, hclosed, hsome, hactivity, earlier, last, hcompletion, ?_⟩
  have hresults := hcompletion.results
  rw [Executor.results, hactivity] at hresults
  exact (List.singleton_inj.1 hresults).symm

end DronePilot.Plan
