import DronePilot.Proofs.Postponement

/-!
# The moves of an executor

A turn of the executor goes on until it has nothing more to do.  Here it is taken apart into moves
that serve one statement each, the one that the executor waits for or the first in its queue, and
reading is taken apart into characters.

* `Executor.evaluate_eq` — serving a statement runs a computation and books its outcome.
* `Executor.turn_eq_serve` — a turn serves one statement after the other.
* `Executor.take_text`, `Executor.fed_cons` — a text is read character by character, and the
  statements that become ready are queued in order.
-/

namespace DronePilot.Plan

variable {σ : Type}

/-- One move of the executor: it serves the statement that it waits for, or the first in its
queue. -/
def Executor.serve (kit : Toolkit σ) (e : Executor) (world : σ) : Executor × σ :=
  match e.activity with
  | .ended _ | .halted _ => (e, world)
  | .waiting p =>
    e.evaluate world p.ticket
      ((e.statement p.ticket).carryOn kit.call p.rounds p.last p.trail)
  | .idle =>
    match e.queue with
    | [] => (e, world)
    | t :: rest => { e with queue := rest }.evaluate world t ((e.statement t).start kit.call)

/-- The result that an executor has delivered. -/
def Executor.results (e : Executor) : List Result :=
  match e.activity with
  | .ended r => [r]
  | .idle | .waiting _ | .halted _ => []

/-- An executor that is not over has delivered nothing. -/
theorem Executor.results_of_not_over {e : Executor} (h : e.isOver = false) : e.results = [] := by
  unfold Executor.isOver at h
  unfold Executor.results
  cases hactivity : e.activity with
  | ended r => simp [hactivity] at h
  | _ => rfl

/-- The end of a text changes no plan. -/
@[simp]
theorem Executor.conclude_plans (e : Executor) (r : Reading) :
    (e.conclude r).2.plans = e.plans := by
  unfold Executor.conclude Executor.closePlan
  cases e.plans.back? <;> cases r <;> rfl

/-- Nor does booking what came of a statement. -/
@[simp]
theorem Executor.book_plans (e : Executor) (t : Ticket) (outcome : Except Halt Stage) :
    (e.book t outcome).plans = e.plans := by
  rcases outcome with f | stage
  · rfl
  · rcases stage with ⟨r, _ | _⟩ | _ <;> rfl

/-- The last statement expected ends the execution. -/
theorem Executor.book_last {e : Executor} (h : e.expected = 1) (t : Ticket) (r : Result) :
    e.book t (.ok (.done r false)) =
      { e with history := e.history ++ [t], expected := 0, activity := .ended r } := by
  simp [Executor.book, h]

/-- A statement that did not return is booked, and one less is expected. -/
theorem Executor.book_done {e : Executor} (h : e.expected ≠ 1) (t : Ticket) (r : Result) :
    e.book t (.ok (.done r false)) =
      { e with history := e.history ++ [t], expected := e.expected - 1, activity := .idle } := by
  simp [Executor.book, h]

/-- A computation for a statement runs in the variables of its plan, and changes nothing of the
executor but these. -/
theorem Executor.compute_eq {e : Executor} {a : Assignment} (hplans : e.plans = #[a]) {world : σ}
    {k : Nat} {x : Run σ Stage} {outcome : Except Halt Stage} {s : Scope σ}
    (hexec : x.exec { world := world, bindings := a.bindings } = (outcome, s)) :
    e.compute world { plan := 0, position := k } x =
      (outcome, { e with plans := #[{ a with bindings := s.bindings }] }, s.world) := by
  unfold Run.exec at hexec
  simp [Executor.compute, hplans, hexec]

/-- Serving a statement runs a computation in the variables of its plan and books the outcome. -/
theorem Executor.evaluate_eq {e : Executor} {a : Assignment} (hplans : e.plans = #[a]) {world : σ}
    {k : Nat} {x : Run σ Stage} {outcome : Except Halt Stage} {s : Scope σ}
    (hexec : x.exec { world := world, bindings := a.bindings } = (outcome, s)) :
    e.evaluate world { plan := 0, position := k } x =
      ({ e with plans := #[{ a with bindings := s.bindings }] }.book { plan := 0, position := k }
        outcome, s.world) := by
  rw [Executor.evaluate, Executor.compute_eq hplans hexec]

/-- An executor that is idle after booking a stage has kept its queue, and the statement is done. -/
theorem Executor.book_of_idle {e : Executor} {t : Ticket} {outcome : Except Halt Stage}
    (hidle : (e.book t outcome).activity = .idle) :
    (e.book t outcome).queue = e.queue ∧ (e.book t outcome).history = e.history ++ [t] := by
  cases outcome with
  | error f => cases hidle
  | ok stage =>
      cases stage with
      | pending rounds last trail => cases hidle
      | done r returned =>
          cases returned with
          | true => cases hidle
          | false => exact ⟨rfl, rfl⟩

/-- An executor that waits after booking a stage waits for that stage. -/
theorem Executor.outcome_of_book {e : Executor} {t : Ticket} {outcome : Except Halt Stage}
    {p : Pending} (hwaiting : (e.book t outcome).activity = .waiting p) :
    outcome = .ok (.pending p.rounds p.last p.trail) := by
  cases outcome with
  | error f => cases hwaiting
  | ok stage =>
      cases stage with
      | pending rounds last trail =>
          cases hwaiting
          rfl
      | done r returned =>
          cases returned with
          | true => cases hwaiting
          | false =>
              simp only [Executor.book] at hwaiting
              split at hwaiting <;> cases hwaiting

/-- An executor that is idle after a statement has booked it and left the queue alone. -/
theorem Executor.evaluate_of_idle {e e' : Executor} {world world' : σ} {t : Ticket}
    {x : Run σ Stage} (h : e.evaluate world t x = (e', world')) (hidle : e'.activity = .idle) :
    e'.queue = e.queue ∧ e'.history = e.history ++ [t] := by
  unfold Executor.evaluate at h
  dsimp only at h
  obtain ⟨rfl, -⟩ := Prod.mk.inj h
  exact Executor.book_of_idle hidle

section

variable {kit : Toolkit σ} {e : Executor} {world : σ}

/-- An executor whose work is over does nothing. -/
theorem Executor.serve_of_isOver (h : e.isOver = true) : e.serve kit world = (e, world) := by
  unfold Executor.isOver at h
  unfold Executor.serve
  cases hactivity : e.activity with
  | ended r => rfl
  | halted f => rfl
  | idle => simp [hactivity] at h
  | waiting p => simp [hactivity] at h

/-- Nor does an idle one with an empty queue. -/
theorem Executor.serve_of_empty (h : e.activity = .idle) (hqueue : e.queue = []) :
    e.serve kit world = (e, world) := by
  simp [Executor.serve, h, hqueue]

/-- An idle executor starts the next statement. -/
theorem Executor.serve_of_queue {t : Ticket} {rest : List Ticket} (h : e.activity = .idle)
    (hqueue : e.queue = t :: rest) :
    e.serve kit world =
      { e with queue := rest }.evaluate world t ((e.statement t).start kit.call) := by
  simp [Executor.serve, h, hqueue]

/-- One that waits carries on with its statement. -/
theorem Executor.serve_of_waiting {p : Pending} (h : e.activity = .waiting p) :
    e.serve kit world =
      e.evaluate world p.ticket
        ((e.statement p.ticket).carryOn kit.call p.rounds p.last p.trail) := by
  simp [Executor.serve, h]

/-- Serving a statement changes nothing of a plan but its variables. -/
theorem Executor.serve_single (kit : Toolkit σ) (world : σ) {a : Assignment}
    (hplans : e.plans = #[a]) :
    ∃ bindings, (e.serve kit world).1.plans = #[{ a with bindings := bindings }] := by
  have hevaluate : ∀ (e : Executor) (t : Ticket) (x : Run σ Stage), e.plans = #[a] →
      ∃ bindings, (e.evaluate world t x).1.plans = #[{ a with bindings := bindings }] := by
    intro e t x he
    simp only [Executor.evaluate, Executor.book_plans, Executor.compute]
    split
    rename_i stage scope _
    cases hplan : t.plan with
    | zero => exact ⟨scope.bindings, by simp [he]⟩
    | succ n => exact ⟨a.bindings, by simp [he]⟩
  unfold Executor.serve
  split
  · exact ⟨a.bindings, hplans⟩
  · exact ⟨a.bindings, hplans⟩
  · exact hevaluate e _ _ hplans
  · split
    · exact ⟨a.bindings, hplans⟩
    · exact hevaluate _ _ _ hplans

/-- A turn of an idle executor drains its queue. -/
theorem Executor.turn_of_idle (h : e.activity = .idle) :
    e.turn kit world = Executor.drain kit e.queue e world := by
  simp [Executor.turn, h]

/-- A turn of one that waits carries on, and drains the queue if that comes to an end. -/
theorem Executor.turn_of_waiting {p : Pending} (h : e.activity = .waiting p) :
    e.turn kit world =
      match e.evaluate world p.ticket
          ((e.statement p.ticket).carryOn kit.call p.rounds p.last p.trail) with
      | (e', world') =>
        match e'.activity with
        | .idle => Executor.drain kit e'.queue e' world'
        | _ => (e', world') := by
  simp only [Executor.turn, h]
  cases e.statement p.ticket <;> rfl

/-- An executor that is over, or idle with nothing in its queue, does nothing in its turn. -/
theorem Executor.turn_of_isOver (h : e.isOver = true) : e.turn kit world = (e, world) := by
  unfold Executor.isOver at h
  unfold Executor.turn
  cases hactivity : e.activity with
  | ended r => rfl
  | halted f => rfl
  | idle => simp [hactivity] at h
  | waiting p => simp [hactivity] at h

/-- With an empty queue a turn does nothing. -/
theorem Executor.turn_of_empty (h : e.activity = .idle) (hqueue : e.queue = []) :
    e.turn kit world = (e, world) := by
  rw [Executor.turn_of_idle h, hqueue, Executor.drain, ← hqueue]

/-- **A turn of the executor serves one statement, and goes on as long as it is idle then.** -/
theorem Executor.turn_eq_serve (h : e.activity = .idle → e.queue ≠ []) {e' : Executor} {world' : σ}
    (hserve : e.serve kit world = (e', world')) :
    e.turn kit world =
      match e'.activity with
      | .idle => e'.turn kit world'
      | _ => (e', world') := by
  cases hactivity : e.activity with
  | ended r =>
      have hover : e.isOver = true := by simp [Executor.isOver, hactivity]
      rw [Executor.serve_of_isOver hover] at hserve
      cases hserve
      rw [hactivity, Executor.turn_of_isOver hover]
  | halted f =>
      have hover : e.isOver = true := by simp [Executor.isOver, hactivity]
      rw [Executor.serve_of_isOver hover] at hserve
      cases hserve
      rw [hactivity, Executor.turn_of_isOver hover]
  | idle =>
      cases hqueue : e.queue with
      | nil => exact absurd hqueue (h hactivity)
      | cons t rest =>
          rw [Executor.serve_of_queue hactivity hqueue] at hserve
          rw [Executor.turn_of_idle hactivity, hqueue, Executor.drain, hserve]
          dsimp only
          cases hactivity' : e'.activity with
          | idle =>
              have hrest : e'.queue = rest := (Executor.evaluate_of_idle hserve hactivity').1
              rw [Executor.turn_of_idle hactivity', hrest]
          | _ => rfl
  | waiting p =>
      rw [Executor.serve_of_waiting hactivity] at hserve
      rw [Executor.turn_of_waiting hactivity, hserve]
      dsimp only
      cases hactivity' : e'.activity with
      | idle => rw [Executor.turn_of_idle hactivity']
      | _ => rfl

end

/-- The tickets of the positions from `k` up to `n` in the first plan. -/
def tickets (k n : Nat) : List Ticket :=
  ((List.range n).drop k).map fun i => { plan := 0, position := i }

/-- No tickets are given out between a position and one before it. -/
theorem tickets_of_le {k n : Nat} (h : n ≤ k) : tickets k n = [] := by
  simp [tickets, List.drop_eq_nil_of_le (Nat.le_trans (Nat.le_of_eq List.length_range) h)]

/-- The first ticket is for the first position. -/
theorem tickets_of_lt {k n : Nat} (h : k < n) :
    tickets k n = { plan := 0, position := k } :: tickets (k + 1) n := by
  unfold tickets
  rw [List.drop_eq_getElem_cons (by simpa using h)]
  simp

/-- Tickets up to a position, and from there on. -/
theorem tickets_append {k m n : Nat} (hk : k ≤ m) (hm : m ≤ n) :
    tickets k m ++ tickets m n = tickets k n := by
  have hsplit : List.range n = List.range m ++ (List.range n).drop m := by
    have htake : (List.range n).take m = List.range m := by
      rw [List.take_range, Nat.min_eq_left hm]
    rw [← htake, List.take_append_drop]
  have hdrop : (List.range n).drop k = (List.range m).drop k ++ (List.range n).drop m := by
    conv => lhs; rw [hsplit]
    rw [List.drop_append_of_le_length (by simpa using hk)]
  simp only [tickets, hdrop, List.map_append]

/-- An executor of one plan after a text of that plan: the statements that became ready are in its
queue. -/
def Executor.fed (e : Executor) (a : Assignment) (text : List Char) : Executor :=
  { e with
    plans := #[{ a with intake := (a.intake.feed text).1 }]
    queue := e.queue ++ tickets a.intake.program.issued (a.intake.feed text).1.program.issued }

section

variable {e : Executor} {a : Assignment}

/-- What an executor of one plan does with a text. -/
theorem Executor.take_text (hplans : e.plans = #[a]) (hsound : a.intake.Sound) (text : String) :
    (e.take (.text text)).1 = e.fed a text.toList ∧
      (e.take (.text text)).2.2 = (a.intake.feed text.toList).2 := by
  have hready := (hsound.feed text.toList).1.ready
  by_cases hempty : text = ""
  · subst hempty
    simp [Executor.take, hplans, Intake.take, Chunk.text?, Executor.fed, Intake.feed, tickets_of_le]
  · simp [Executor.take, hplans, Intake.take, Chunk.text?, Executor.fed, hempty, tickets, hready,
      hsound.ready]

/-- Only the text of a chunk counts. -/
theorem Executor.take_of_text {chunk : Chunk} {text : String}
    (h : chunk.text? = .ok (some text)) : e.take chunk = e.take (.text text) := by
  have htake : ∀ i : Intake, i.take chunk = i.take (.text text) := by
    intro i
    unfold Intake.take
    rw [h]
    rfl
  simp only [Executor.take, htake]

/-- A chunk without text leaves an executor of one plan as it is. -/
theorem Executor.take_of_textless (hplans : e.plans = #[a]) {chunk : Chunk} {r : Reading}
    (h : (chunk.text? = .ok none ∧ r = .more) ∨ ∃ f, chunk.text? = .error f ∧ r = .failed f) :
    e.take chunk = (e, [], r) := by
  have htake : a.intake.take chunk = (a.intake, [], r) := by
    obtain ⟨htext, rfl⟩ | ⟨f, htext, rfl⟩ := h <;> simp [Intake.take, htext]
  cases e
  cases hplans
  simp [Executor.take, htake]

theorem Executor.fed_nil (hplans : e.plans = #[a]) : e.fed a [] = e := by
  simp [Executor.fed, Intake.feed, tickets_of_le, ← hplans]

/-- A text is read by reading its first character and then, if that one did not stop the reading,
the rest. -/
theorem Executor.fed_cons (hsound : a.intake.Sound) {c : Char}
    (hmore : (a.intake.feed [c]).2 = .more) (text : List Char) :
    e.fed a (c :: text) =
      (e.fed a [c]).fed { a with intake := (a.intake.feed [c]).1 } text := by
  obtain ⟨hsound', hgrows⟩ := hsound.feed [c]
  have hgrows' := (hsound'.feed text).2
  have hfeed := Intake.feed_cons_of_more hmore text
  simp only [Executor.fed, hfeed, List.append_assoc]
  rw [tickets_append hgrows.issued_le hgrows'.issued_le]

end

end DronePilot.Plan
