import DronePilot.Proofs.Agreement
import DronePilot.Proofs.Bookkeeping

/-!
# Executing a plan that has been read

The executor that has read a plan expects its listed statements, and has them in its queue together
with the block that may be left open at the end.  A result is delivered when the last statement that
is expected is done, or when one returns; so a block left open after other statements is never
begun, and one without others before it counts only if it returns.  `Executor.delivers_iff` says
when a turn of the executor delivers a result.
-/

namespace DronePilot.Plan

variable {σ : Type}

/-- The plan is brought to a result: its statements are evaluated in order, none of which halts; or
it has none, and a block left open returns. -/
inductive Delivers (kit : Toolkit σ) (p : Program) (world : σ) : Prop
  | statements {r : Result} {s : Scope σ} (hsome : p.statements ≠ [])
      (h : (runToEnd kit.call p.statements .none).exec { world := world } = (.ok r, s))
  | block {r : Result} {s : Scope σ} (hnone : p.statements = [])
      (hopen : p.current.isOpenBlock = true)
      (h : (p.current.start kit.call).exec { world := world } = (.ok (.done r true), s))

/-- Reading fails with the fault at which the plan could not be read on. -/
theorem Executor.read_outcome (chunks : List Chunk) :
    (Executor.read {} chunks).1 =
      match (({} : Intake).readAll chunks).2 with
      | .failed f => .error f
      | .more | .closed => .ok () := by
  have hplans : (({} : Executor).openPlan).plans = #[{}] := rfl
  obtain ⟨-, hreading⟩ := Executor.takeAll_eq_readOn hplans Intake.sound_fresh chunks
  simp only [Executor.read, hreading]
  cases (({} : Intake).readAll chunks).2 with
  | failed f => rfl
  | more => rfl
  | closed => rfl

section

variable {chunks : List Chunk}

/-- With statements listed, the executor runs them to the end. -/
theorem Executor.turn_of_statements (kit : Toolkit σ) (world : σ)
    (hread : ∀ f, (({} : Intake).readAll chunks).2 ≠ .failed f)
    (hsome : (({} : Intake).readAll chunks).1.program.statements ≠ [])
    {outcome : Except Halt Result} {s : Scope σ}
    (h : (runToEnd kit.call (({} : Intake).readAll chunks).1.program.statements .none).exec
      { world := world } = (outcome, s)) :
    ((Executor.read {} chunks).2.1.turn kit world).1.activity = .over outcome := by
  have hsound : (({} : Intake).readAll chunks).1.Sound := (Intake.sound_fresh.takeAll chunks).1
  have hissued : (({} : Intake).readAll chunks).1.program.statements.length ≤
      (({} : Intake).readAll chunks).1.program.issued := Nat.le_add_right _ _
  have heffect : (runToEnd kit.call ((({} : Intake).readAll chunks).1.program.statements.drop 0)
      .none).effect { world := world } = (outcome, s.lowered) := Run.effect_of_exec h
  rw [Executor.read_eq hread, Executor.turn_of_idle rfl]
  exact (Executor.drain_tickets (s := s.lowered) kit hsound.program hissued
    (List.length_pos_iff.2 hsome) rfl rfl (by simp) heffect).1

/-- Serving the only statement in the queue, when none is expected: only a statement that returns
ends the execution. -/
theorem Executor.drain_unexpected (kit : Toolkit σ) {a : Assignment} {e : Executor}
    (hplans : e.plans = #[a]) (hexpected : e.expected = 0) {k : Nat} {world : σ}
    {outcome : Except Halt Stage} {s : Scope σ}
    (h : ((a.intake.program.statementAt k).start kit.call).exec
      { world := world, bindings := a.bindings } = (outcome, s)) (r : Result) :
    (Executor.drain kit [{ plan := 0, position := k }] e world).1.activity = .ended r ↔
      outcome = .ok (.done r true) := by
  have hstatement : e.statement { plan := 0, position := k } = a.intake.program.statementAt k := by
    simp [Executor.statement, hplans]
  have hplans' : ({ e with queue := [] } : Executor).plans = #[a] := hplans
  rw [Executor.drain, hstatement, Executor.evaluate_eq hplans' h]
  cases outcome with
  | error f => simp [Executor.book]
  | ok stage =>
      cases stage with
      | pending rounds last trail => simp [Executor.book]
      | done r' returned =>
          cases returned with
          | true => simp [Executor.book]
          | false => simp [Executor.book, hexpected, Executor.drain]

/-- Without statements listed, the executor has the open block to begin, or nothing to do. -/
theorem Executor.turn_of_none (kit : Toolkit σ) (world : σ)
    (hread : ∀ f, (({} : Intake).readAll chunks).2 ≠ .failed f)
    (hnone : (({} : Intake).readAll chunks).1.program.statements = []) (r : Result) :
    ((Executor.read {} chunks).2.1.turn kit world).1.activity = .ended r ↔
      (({} : Intake).readAll chunks).1.program.current.isOpenBlock = true ∧
      ∃ s, ((({} : Intake).readAll chunks).1.program.current.start kit.call).exec
        { world := world } = (.ok (.done r true), s) := by
  rw [Executor.read_eq hread, Executor.turn_of_idle rfl]
  generalize ({} : Intake).readAll chunks = final at hnone
  cases hopen : final.1.program.current.isOpenBlock with
  | false =>
      have hissued : final.1.program.issued = 0 := by simp [Body.issued, hnone, hopen]
      rw [hissued, tickets_of_le (Nat.le_refl 0), Executor.drain]
      simp
  | true =>
      have hissued : final.1.program.issued = 1 := by simp [Body.issued, hnone, hopen]
      have hstatement : final.1.program.statementAt 0 = final.1.program.current := by
        have hlength := final.1.program.statementAt_length
        rw [hnone] at hlength
        exact hlength
      cases hstart : (final.1.program.current.start kit.call).exec { world := world } with
      | mk outcome s =>
          rw [← hstatement] at hstart
          rw [hissued, tickets_of_lt Nat.zero_lt_one, tickets_of_le (Nat.le_refl 1),
            Executor.drain_unexpected kit rfl (by simp [hnone]) hstart]
          simp

/-- **When the executor delivers a result.**  Reading the plan has not failed. -/
theorem Executor.delivers_iff (kit : Toolkit σ) (world : σ)
    (hread : ∀ f, (({} : Intake).readAll chunks).2 ≠ .failed f) :
    (∃ r, ((Executor.read {} chunks).2.1.turn kit world).1.activity = .ended r) ↔
      Delivers kit (({} : Intake).readAll chunks).1.program world := by
  by_cases hnone : (({} : Intake).readAll chunks).1.program.statements = []
  · constructor
    · intro h
      obtain ⟨r, hended⟩ := h
      obtain ⟨hopen, s, hstart⟩ := (Executor.turn_of_none kit world hread hnone r).1 hended
      exact .block hnone hopen hstart
    · intro h
      cases h with
      | statements hsome _ => exact absurd hnone hsome
      | @block r s _ hopen hstart =>
          exact ⟨r, (Executor.turn_of_none kit world hread hnone r).2 ⟨hopen, s, hstart⟩⟩
  · cases hrun : (runToEnd kit.call (({} : Intake).readAll chunks).1.program.statements .none).exec
        { world := world } with
    | mk outcome s =>
        have hactivity := Executor.turn_of_statements kit world hread hnone hrun
        rw [hactivity]
        constructor
        · intro h
          obtain ⟨r, hended⟩ := h
          cases outcome with
          | error f => cases hended
          | ok r' => exact .statements hnone hrun
        · intro h
          cases h with
          | block hempty _ _ => exact absurd hempty hnone
          | @statements r s' _ hok =>
              rw [hrun] at hok
              cases hok
              exact ⟨r, rfl⟩

end

end DronePilot.Plan
