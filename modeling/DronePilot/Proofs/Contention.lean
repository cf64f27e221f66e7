import Mathlib.Data.List.Perm.Basic
import DronePilot.Proofs.Conduct
import DronePilot.Proofs.Execution

/-!
# Executors that share a queue

There is one queue of statements for all executors, and executors of earlier plans may still be
there when a plan is executed.  Whoever is faster takes the next statement.  It is evaluated all the
same, with the variables of its plan, but only the executor that took it counts it, and only that
one delivers a result if the statement returns.  So the executor of a plan may be left with too few
statements to deliver anything.

* `Executor.share_alone` — without others, sharing the queue is draining it.
* `Executor.Obtains`, `Executor.share_ends_iff` — when the executor of a plan delivers a result all
  the same.
* `Conduct.Shares.share_keeps` — what sharing the queue keeps to, whoever takes a statement.
-/

namespace DronePilot.Plan

variable {σ : Type}

/-! ### Without others -/

/-- Without others, the executor of the plan takes the statement if it is idle. -/
theorem Executor.taker?_nil (e : Executor) (pick : Option Nat) :
    e.taker? [] pick = if e.activity matches .idle then some .own else none := by
  have hpick : (pick.bind fun i => (([] : List Stray)[i]?).map (Taker.other i)) = none := by
    cases pick <;> rfl
  unfold Executor.taker?
  rw [hpick]
  cases e.activity <;> rfl

/-- The queue stands as it was when a statement was taken, unless the executor has come to its
end. -/
theorem Executor.queue_evaluate {e : Executor} {world : σ} {t : Ticket} {x : Run σ Stage}
    (h : ∀ r, (e.evaluate world t x).1.activity ≠ .ended r) :
    (e.evaluate world t x).1.queue = e.queue := by
  have hqueue : (e.compute world t x).2.1.queue = e.queue := rfl
  simp only [Executor.evaluate] at h ⊢
  generalize e.compute world t x = computed at h hqueue
  obtain ⟨stage, e', world'⟩ := computed
  cases stage with
  | error f => exact hqueue
  | ok stage =>
      cases stage with
      | pending rounds last trail => exact hqueue
      | done r returned =>
          cases returned with
          | true => exact absurd rfl (h r)
          | false => exact hqueue

/-- Once the executor takes no more, the rest of the queue stays. -/
theorem Executor.share_over (kit : Toolkit σ) (resume : σ → σ) {e : Executor}
    (h : e.activity ≠ .idle) (ts : List Ticket) (picks : List (Option Nat)) (world : σ) :
    e.share kit resume ts picks [] world = ({ e with queue := ts }, [], world) := by
  cases ts with
  | nil => rfl
  | cons t rest =>
      have htaker : e.taker? [] picks.head?.join = none := by
        rw [Executor.taker?_nil]
        cases hactivity : e.activity with
        | idle => exact absurd hactivity h
        | waiting p => rfl
        | ended r => rfl
        | halted f => rfl
      rw [Executor.share, htaker]

/-- **Without others**, sharing the queue is draining it. -/
theorem Executor.share_alone (kit : Toolkit σ) (resume : σ → σ) {e : Executor}
    (h : e.activity = .idle) (ts : List Ticket) (picks : List (Option Nat)) (world : σ) :
    e.share kit resume ts picks [] world =
      ((e.drain kit ts world).1, [], (e.drain kit ts world).2) := by
  induction ts generalizing e picks world with
  | nil => rfl
  | cons t rest ih =>
      have htaker : e.taker? [] picks.head?.join = some .own := by
        rw [Executor.taker?_nil, h]
        rfl
      rw [Executor.share, htaker, Executor.drain]
      have hqueue := @Executor.queue_evaluate σ { e with queue := rest } world t
        ((e.statement t).start kit.call)
      simp only
      generalize ({ e with queue := rest } : Executor).evaluate world t
        ((e.statement t).start kit.call) = served at hqueue
      obtain ⟨e', world'⟩ := served
      cases hactivity : e'.activity with
      | idle => exact ih hactivity picks.tail world'
      | ended r => rfl
      | waiting p =>
          obtain rfl : e'.queue = rest := hqueue (by simp [hactivity])
          exact Executor.share_over kit resume (by simp [hactivity]) e'.queue picks.tail world'
      | halted f =>
          obtain rfl : e'.queue = rest := hqueue (by simp [hactivity])
          exact Executor.share_over kit resume (by simp [hactivity]) e'.queue picks.tail world'

/-! ### With others -/

/-- The executor of the plan takes a statement only if it has nothing else to do. -/
theorem Executor.idle_of_taker {e : Executor} {strays : List Stray} {pick : Option Nat}
    (h : e.taker? strays pick = some .own) : e.activity = .idle := by
  unfold Executor.taker? at h
  split at h
  · rename_i x hpick
    obtain ⟨i, -, hstray⟩ := Option.bind_eq_some_iff.1 hpick
    obtain ⟨s, -, rfl⟩ := Option.map_eq_some_iff.1 hstray
    cases h
  · cases hactivity : e.activity with
    | idle => rfl
    | waiting p => cases strays <;> simp [hactivity] at h
    | ended r => cases strays <;> simp [hactivity] at h
    | halted f => cases strays <;> simp [hactivity] at h

/-- Another executor that takes a statement is one of those left over. -/
theorem Executor.getElem?_of_taker {e : Executor} {strays : List Stray} {pick : Option Nat}
    {i : Nat} {s : Stray} (h : e.taker? strays pick = some (.other i s)) : strays[i]? = some s := by
  unfold Executor.taker? at h
  split at h
  · rename_i x hpick
    obtain ⟨j, -, hstray⟩ := Option.bind_eq_some_iff.1 hpick
    obtain ⟨s', hs', rfl⟩ := Option.map_eq_some_iff.1 hstray
    cases h
    exact hs'
  · split at h
    · cases h
    all_goals
      cases strays with
      | nil => cases h
      | cons s' rest =>
          cases h
          rfl

section

variable (kit : Toolkit σ) (resume : σ → σ)

/-- How far the evaluation of the next statement comes, the executor with the variables as they are
then, and the world. -/
def Executor.startNext (e : Executor) (t : Ticket) (rest : List Ticket) (world : σ) :
    Except Halt Stage × Executor × σ :=
  { e with queue := rest }.compute world t ((e.statement t).start kit.call)

/-- The executor of a plan obtains a result while others take statements from the same queue.  It
takes one that returns, or the last one that it expects, and those that it takes before are done
without returning.  Those that others take in between do not count, but none of them returns. -/
inductive Executor.Obtains :
    List Ticket → List (Option Nat) → Executor → List Stray → σ → Prop
  | ends {t : Ticket} {rest : List Ticket} {picks : List (Option Nat)} {e e' : Executor}
      {strays : List Stray} {world world' : σ} {r : Result} {returned : Bool}
      (htaker : e.taker? strays picks.head?.join = some .own)
      (hstarted : e.startNext kit t rest world = (.ok (.done r returned), e', world'))
      (hends : returned = true ∨ e.expected = 1) : Obtains (t :: rest) picks e strays world
  | onward {t : Ticket} {rest : List Ticket} {picks : List (Option Nat)} {e e' : Executor}
      {strays : List Stray} {world world' : σ} {r : Result}
      (htaker : e.taker? strays picks.head?.join = some .own)
      (hstarted : e.startNext kit t rest world = (.ok (.done r false), e', world'))
      (hmore : e.expected ≠ 1)
      (h : Obtains rest picks.tail (e'.book t (.ok (.done r false))) strays world') :
      Obtains (t :: rest) picks e strays world
  | other {t : Ticket} {rest : List Ticket} {picks : List (Option Nat)} {e e' : Executor}
      {strays strays' : List Stray} {world world' world'' : σ} {i : Nat} {s : Stray}
      {stage : Except Halt Stage}
      (htaker : e.taker? strays picks.head?.join = some (.other i s))
      (hstarted : e.startNext kit t rest world = (stage, e', world'))
      (hothers : s.serve resume i strays world' stage = (false, strays', world''))
      (h : Obtains rest picks.tail e' strays' world'') : Obtains (t :: rest) picks e strays world

end

section

variable {kit : Toolkit σ} {resume : σ → σ}

/-- Evaluating a statement leaves what the executor does and what it expects. -/
theorem Executor.unchanged_of_startNext {e e' : Executor} {t : Ticket} {rest : List Ticket}
    {world world' : σ} {stage : Except Halt Stage}
    (h : e.startNext kit t rest world = (stage, e', world')) :
    e'.activity = e.activity ∧ e'.expected = e.expected := by
  have hcomputed : (e.startNext kit t rest world).2.1.activity = e.activity ∧
      (e.startNext kit t rest world).2.1.expected = e.expected := ⟨rfl, rfl⟩
  rw [h] at hcomputed
  exact hcomputed

/-- An executor that obtains a result has nothing else to do. -/
theorem Executor.Obtains.idle {ts : List Ticket} {picks : List (Option Nat)} {e : Executor}
    {strays : List Stray} {world : σ} (h : Executor.Obtains kit resume ts picks e strays world) :
    e.activity = .idle := by
  induction h with
  | ends htaker => exact Executor.idle_of_taker htaker
  | onward htaker => exact Executor.idle_of_taker htaker
  | other _ hstarted _ _ ih => exact (Executor.unchanged_of_startNext hstarted).1.symm.trans ih

section

variable {e e' : Executor} {strays strays' : List Stray} {picks : List (Option Nat)} {t : Ticket}
  {rest : List Ticket} {world world' world'' : σ} {i : Nat} {s : Stray} {stage : Except Halt Stage}
  {emptied : Bool}

/-- The executor of the plan takes a statement, and goes on sharing the queue unless it has
delivered a result. -/
theorem Executor.share_own (htaker : e.taker? strays picks.head?.join = some .own)
    (hstarted : e.startNext kit t rest world = (stage, e', world')) :
    e.share kit resume (t :: rest) picks strays world =
      if (e'.book t stage).activity matches .ended _ then (e'.book t stage, strays, world')
      else (e'.book t stage).share kit resume rest picks.tail strays world' := by
  have hevaluated : ({ e with queue := rest } : Executor).evaluate world t
      ((e.statement t).start kit.call) = (e'.book t stage, world') := by
    rw [Executor.evaluate, show ({ e with queue := rest } : Executor).compute world t
      ((e.statement t).start kit.call) = (stage, e', world') from hstarted]
  rw [Executor.share, htaker]
  simp only [hevaluated]
  cases (e'.book t stage).activity <;> rfl

/-- Another executor takes a statement, and the queue is shared on unless that has emptied it. -/
theorem Executor.share_other (htaker : e.taker? strays picks.head?.join = some (.other i s))
    (hstarted : e.startNext kit t rest world = (stage, e', world'))
    (hothers : s.serve resume i strays world' stage = (emptied, strays', world'')) :
    e.share kit resume (t :: rest) picks strays world =
      if emptied then ({ e' with queue := [] }, strays', world'')
      else e'.share kit resume rest picks.tail strays' world'' := by
  have hcomputed : ({ e with queue := rest } : Executor).compute world t
      ((e.statement t).start kit.call) = (stage, e', world') := hstarted
  rw [Executor.share, htaker]
  simp only [hcomputed, hothers]

/-- The executor of the plan takes the next statement. -/
theorem Executor.obtains_own_iff (htaker : e.taker? strays picks.head?.join = some .own)
    (hstarted : e.startNext kit t rest world = (stage, e', world')) :
    Executor.Obtains kit resume (t :: rest) picks e strays world ↔
      ∃ r returned, stage = .ok (.done r returned) ∧
        (returned = true ∨ e.expected = 1 ∨
          Executor.Obtains kit resume rest picks.tail (e'.book t stage) strays world') := by
  constructor
  · intro h
    cases h with
    | ends _ hstarted' hends =>
        cases hstarted.symm.trans hstarted'
        exact ⟨_, _, rfl, hends.imp_right .inl⟩
    | onward _ hstarted' _ h =>
        cases hstarted.symm.trans hstarted'
        exact ⟨_, _, rfl, .inr (.inr h)⟩
    | other htaker' => simp [htaker] at htaker'
  · rintro ⟨r, returned, rfl, h⟩
    by_cases hends : returned = true ∨ e.expected = 1
    · exact .ends htaker hstarted hends
    · obtain ⟨hgoing, hmore⟩ := not_or.1 hends
      obtain rfl : returned = false := Bool.not_eq_true _ ▸ hgoing
      exact .onward htaker hstarted hmore ((h.resolve_left hgoing).resolve_left hmore)

/-- Another executor takes the next statement. -/
theorem Executor.obtains_other_iff (htaker : e.taker? strays picks.head?.join = some (.other i s))
    (hstarted : e.startNext kit t rest world = (stage, e', world'))
    (hothers : s.serve resume i strays world' stage = (emptied, strays', world'')) :
    Executor.Obtains kit resume (t :: rest) picks e strays world ↔
      emptied = false ∧ Executor.Obtains kit resume rest picks.tail e' strays' world'' := by
  constructor
  · intro h
    cases h with
    | ends htaker' => simp [htaker] at htaker'
    | onward htaker' => simp [htaker] at htaker'
    | other htaker' hstarted' hothers' h =>
        cases htaker.symm.trans htaker'
        cases hstarted.symm.trans hstarted'
        cases hothers.symm.trans hothers'
        exact ⟨rfl, h⟩
  · rintro ⟨rfl, h⟩
    exact .other htaker hstarted hothers h

end

/-- Booking a stage ends the work if the statement has returned, or is the last one expected. -/
theorem Executor.book_ends_iff {e : Executor} {t : Ticket} {stage : Except Halt Stage} :
    (∃ r, (e.book t stage).activity = .ended r) ↔
      ∃ r returned, stage = .ok (.done r returned) ∧ (returned = true ∨ e.expected = 1) := by
  rcases stage with f | ⟨r, returned⟩ | ⟨rounds, last, trail⟩
  · simp [Executor.book]
  · cases returned with
    | true => simp [Executor.book]
    | false => by_cases hlast : e.expected = 1 <;> simp [Executor.book, hlast]
  · simp [Executor.book]

/-- An executor that is idle then has done a statement. -/
theorem Executor.done_of_book_idle {e : Executor} {t : Ticket} {stage : Except Halt Stage}
    (h : (e.book t stage).activity = .idle) : ∃ r returned, stage = .ok (.done r returned) := by
  rcases stage with f | ⟨r, returned⟩ | ⟨rounds, last, trail⟩
  · simp [Executor.book] at h
  · exact ⟨r, returned, rfl⟩
  · simp [Executor.book] at h

/-- **When the executor of a plan delivers a result** though others take statements, too. -/
theorem Executor.share_ends_iff {ts : List Ticket} {picks : List (Option Nat)} {e : Executor}
    {strays : List Stray} {world : σ} (hactivity : ∀ r, e.activity ≠ .ended r) :
    (∃ r, (e.share kit resume ts picks strays world).1.activity = .ended r) ↔
      Executor.Obtains kit resume ts picks e strays world := by
  induction ts generalizing picks e strays world with
  | nil =>
      refine iff_of_false (not_exists.2 hactivity) fun h => ?_
      cases h
  | cons t rest ih =>
      rcases hstarted : e.startNext kit t rest world with ⟨stage, e', world'⟩
      obtain ⟨hsame, hexpected⟩ := Executor.unchanged_of_startNext hstarted
      cases htaker : e.taker? strays picks.head?.join with
      | none =>
          rw [Executor.share, htaker]
          refine iff_of_false (not_exists.2 hactivity) fun h => ?_
          cases h with
          | ends h => simp [htaker] at h
          | onward h => simp [htaker] at h
          | other h => simp [htaker] at h
      | some taker =>
          cases taker with
          | own =>
              rw [Executor.share_own htaker hstarted, Executor.obtains_own_iff htaker hstarted]
              by_cases hends : ∃ r, (e'.book t stage).activity = .ended r
              · obtain ⟨r, returned, hstage, hlast⟩ := Executor.book_ends_iff.1 hends
                rw [hexpected] at hlast
                obtain ⟨r', hended⟩ := hends
                exact iff_of_true ⟨r', by simp [hended]⟩ ⟨r, returned, hstage, by tauto⟩
              · have hgoing : ∀ r, (e'.book t stage).activity ≠ .ended r := not_exists.1 hends
                have hshared : ((e'.book t stage).activity matches .ended _) = false := by
                  cases hbooked : (e'.book t stage).activity with
                  | ended r => exact absurd hbooked (hgoing r)
                  | _ => rfl
                rw [hshared, if_neg Bool.false_ne_true, ih hgoing]
                constructor
                · intro hobtains
                  obtain ⟨r, returned, hstage⟩ := Executor.done_of_book_idle hobtains.idle
                  exact ⟨r, returned, hstage, .inr (.inr hobtains)⟩
                · rintro ⟨r, returned, hstage, hlast⟩
                  rw [← hexpected, ← or_assoc] at hlast
                  exact hlast.resolve_left fun hlast =>
                    hends (Executor.book_ends_iff.2 ⟨r, returned, hstage, hlast⟩)
          | other i s =>
              rcases hothers : s.serve resume i strays world' stage with ⟨emptied, strays', world''⟩
              have hgoing : ∀ r, e'.activity ≠ .ended r := hsame ▸ hactivity
              rw [Executor.share_other htaker hstarted hothers,
                Executor.obtains_other_iff htaker hstarted hothers, ← ih hgoing]
              cases emptied with
              | true => exact iff_of_false (not_exists.2 hgoing) (by simp)
              | false => simp

end

/-! ### What sharing the queue keeps to -/

/-- Evaluating a statement moves no statement. -/
theorem Executor.statement_compute (e : Executor) (world : σ) (t t' : Ticket) (x : Run σ Stage) :
    (e.compute world t x).2.1.statement t' = e.statement t' := by
  simp only [Executor.compute]
  split
  rename_i stage scope _
  simp only [Executor.statement, Array.getElem?_modify]
  by_cases hplan : t.plan = t'.plan
  · rw [if_pos hplan]
    cases e.plans[t'.plan]? <;> rfl
  · rw [if_neg hplan]

/-- Booking what came of a statement changes no statement. -/
theorem Executor.statement_book (e : Executor) (t t' : Ticket) (stage : Except Halt Stage) :
    (e.book t stage).statement t' = e.statement t' := by
  simp only [Executor.statement, Executor.book_plans]

/-- What is handed out of a plan that was read can be started. -/
theorem Body.WellRead.startable_at {p : Program} (h : p.WellRead) {i : Nat} (hi : i < p.issued) :
    (p.statementAt i).Startable := by
  by_cases hlisted : i < p.statements.length
  · rw [Body.statementAt_lt hlisted]
    exact (h.listed _ (List.get_mem _ _)).startable
  · have hopen : p.current.isOpenBlock = true := by
      cases hcurrent : p.current.isOpenBlock with
      | true => rfl
      | false =>
          simp only [Body.issued, hcurrent, Bool.false_eq_true, if_false] at hi
          omega
    have hlast : i = p.statements.length := by
      simp only [Body.issued, hopen, if_true] at hi
      omega
    rw [hlast, Body.statementAt_length]
    exact h.current.startable hopen

/-- What is in the queue when a plan has been read can be started. -/
theorem Executor.startable_read {chunks : List Chunk}
    (hread : ∀ f, (({} : Intake).readAll chunks).2 ≠ .failed f) :
    ∀ t ∈ (Executor.read {} chunks).2.1.queue,
      ((Executor.read {} chunks).2.1.statement t).Startable := by
  have hplan : (({} : Intake).readAll chunks).1.program.WellRead :=
    (Intake.reaches_readAll {} chunks).wellKept.toWellRead
  rw [Executor.read_eq hread]
  intro t ht
  simp only [tickets, List.drop_zero, List.mem_map, List.mem_range] at ht
  obtain ⟨i, hi, rfl⟩ := ht
  exact hplan.startable_at hi

/-- How many executors left over somebody waits for. -/
def awaiting (strays : List Stray) : Nat := strays.countP Stray.awaited

/-- An executor that goes is awaited no more. -/
theorem awaiting_eraseIdx {strays : List Stray} {i : Nat} {s : Stray} (h : strays[i]? = some s) :
    awaiting strays = awaiting (strays.eraseIdx i) + if s.awaited then 1 else 0 := by
  obtain ⟨hi, hs⟩ := List.getElem?_eq_some_iff.1 h
  have hperm := (List.getElem_cons_eraseIdx_perm hi).countP_eq Stray.awaited
  rw [hs, List.countP_cons] at hperm
  exact hperm.symm

/-- What an executor still expects does not matter to those that await it. -/
theorem awaiting_set {strays : List Stray} {i : Nat} {s : Stray} (h : strays[i]? = some s)
    (n : Int) : awaiting (strays.set i { s with expected := n }) = awaiting strays := by
  obtain ⟨hi, -⟩ := List.getElem?_eq_some_iff.1 h
  have hperm := (List.set_perm_cons_eraseIdx hi { s with expected := n }).countP_eq Stray.awaited
  rw [List.countP_cons] at hperm
  rw [awaiting_eraseIdx h]
  exact hperm

/-- Somebody resumes at most for an executor that was waited for, which is gone then. -/
theorem Stray.serve_awaiting (resume : σ → σ) {strays : List Stray} {i : Nat} {s : Stray}
    (h : strays[i]? = some s) (world : σ) (stage : Except Halt Stage) :
    let served := s.serve resume i strays world stage
    (served.2.2 = world ∧ awaiting served.2.1 ≤ awaiting strays) ∨
      (served.2.2 = resume world ∧ awaiting served.2.1 + 1 = awaiting strays) := by
  have herase := awaiting_eraseIdx h
  intro served
  cases stage with
  | error f => exact .inl ⟨rfl, herase ▸ Nat.le_add_right _ _⟩
  | ok stage =>
      cases stage with
      | pending rounds last trail => exact .inl ⟨rfl, herase ▸ Nat.le_add_right _ _⟩
      | done r returned =>
          simp only [served, Stray.serve]
          split
          · cases hawaited : s.awaited with
            | true =>
                rw [hawaited, if_pos rfl] at herase
                exact .inr ⟨rfl, herase.symm⟩
            | false => exact .inl ⟨rfl, herase ▸ Nat.le_add_right _ _⟩
          · exact .inl ⟨rfl, Nat.le_of_eq (awaiting_set h _)⟩

section

variable {kit : Toolkit σ} (K : Conduct kit)

/-- Something about the executors left over and the world that is kept when the world goes on as the
conduct allows, and when one of these executors has taken a statement. -/
structure Conduct.Shares (resume : σ → σ) (kept : List Stray → σ → Prop) : Prop where
  onward {strays : List Stray} {w w' : σ} : kept strays w → K.leads w w' → kept strays w'
  others {strays : List Stray} {i : Nat} {s : Stray} {w : σ} (stage : Except Halt Stage) :
    strays[i]? = some s → kept strays w →
      kept (s.serve resume i strays w stage).2.1 (s.serve resume i strays w stage).2.2

/-- Evaluating the next statement keeps to the conduct. -/
theorem Conduct.leads_startNext (hvalues : ∀ w v, K.admits w v) {e e' : Executor} {t : Ticket}
    {rest : List Ticket} {world world' : σ} {stage : Except Halt Stage}
    (ht : (e.statement t).Startable)
    (hstarted : e.startNext kit t rest world = (stage, e', world')) : K.leads world world' := by
  have hworld : ∃ bindings, (e.startNext kit t rest world).2.2 =
      (((e.statement t).start kit.call).exec { world := world, bindings := bindings }).2.world :=
    ⟨_, rfl⟩
  obtain ⟨bindings, hworld⟩ := hworld
  rw [hstarted] at hworld
  have hholds : K.Holds { world := world, bindings := bindings } := fun _ v _ => hvalues world v
  rw [show world' = _ from hworld]
  exact (ht.keeps_start K.callsKeep hholds).leads

/-- **Sharing the queue keeps** what each statement keeps, whoever takes it. -/
theorem Conduct.Shares.share_keeps {K : Conduct kit} {resume : σ → σ} {kept : List Stray → σ → Prop}
    (hshares : K.Shares resume kept) (hvalues : ∀ w v, K.admits w v) {ts : List Ticket}
    {e : Executor} (hts : ∀ t ∈ ts, (e.statement t).Startable) (picks : List (Option Nat))
    {strays : List Stray} {world : σ} (h : kept strays world) :
    kept (e.share kit resume ts picks strays world).2.1
      (e.share kit resume ts picks strays world).2.2 := by
  induction ts generalizing e picks strays world with
  | nil => exact h
  | cons t rest ih =>
      obtain ⟨ht, hrest⟩ := List.forall_mem_cons.1 hts
      rcases hstarted : e.startNext kit t rest world with ⟨stage, e', world'⟩
      have hserved : kept strays world' :=
        hshares.onward h (K.leads_startNext hvalues ht hstarted)
      have hsame (t' : Ticket) : e'.statement t' = e.statement t' := by
        have hstatement := ({ e with queue := rest } : Executor).statement_compute world t t'
          ((e.statement t).start kit.call)
        rw [show ({ e with queue := rest } : Executor).compute world t
          ((e.statement t).start kit.call) = _ from hstarted] at hstatement
        exact hstatement
      cases htaker : e.taker? strays picks.head?.join with
      | none =>
          rw [Executor.share, htaker]
          exact h
      | some taker =>
          cases taker with
          | own =>
              rw [Executor.share_own htaker hstarted]
              split
              · exact hserved
              · refine ih (fun t' ht' => ?_) picks.tail hserved
                rw [Executor.statement_book, hsame]
                exact hrest t' ht'
          | other i s =>
              have hothers := hshares.others stage (Executor.getElem?_of_taker htaker) hserved
              rcases hserve : s.serve resume i strays world' stage with ⟨emptied, strays', world''⟩
              rw [hserve] at hothers
              rw [Executor.share_other htaker hstarted hserve]
              cases emptied with
              | true => exact hothers
              | false =>
                  refine ih (fun t' ht' => ?_) picks.tail hothers
                  rw [hsame]
                  exact hrest t' ht'

end

end DronePilot.Plan
