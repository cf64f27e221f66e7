import DronePilot.Proofs.Structured

/-!
# Watching a plan

Marks outlive an evaluation.  To say what they do to the next one, the plan is evaluated by its
meaning, as if for the first time, and *watched*: whenever a block is left behind, and after each
round of a loop, the mark of the block is looked up.  The first time that it is set, the result and
the setting of that moment are kept.

The marks are looked up and nothing else, so that watching shows what the evaluation comes to
(`Statement.Whole.shows_watched`), and shows nothing more where no mark is set
(`Statement.Whole.watched_fresh`).
-/

namespace DronePilot.Plan

variable {σ α β : Type}

/-- A result and the setting in which it was reached. -/
structure Point (σ : Type) where
  result : Result
  setting : Setting σ

/-- What watching an evaluation shows: what it comes to, and the first point at which it left a
marked block behind, if there is one. -/
structure Watched (σ α : Type) where
  outcome : Except Halt α
  setting : Setting σ
  passed : Option (Point σ)

/-- An evaluation that is watched. -/
def Watch (σ α : Type) : Type := Setting σ → Watched σ α

namespace Watch

/-- What follows is watched in turn, and what was seen first stays. -/
def andThen (x : Watch σ α) (f : α → Watch σ β) : Watch σ β := fun s =>
  match x s with
  | ⟨.ok a, s', passed⟩ => { f a s' with passed := passed.or (f a s').passed }
  | ⟨.error h, s', passed⟩ => ⟨.error h, s', passed⟩

instance : Monad (Watch σ) where
  pure a s := ⟨.ok a, s, none⟩
  bind := andThen

/-- Something that cannot leave a marked block behind. -/
def act (x : Act σ α) : Watch σ α := fun s => ⟨(x.exec s).1, (x.exec s).2, none⟩

/-- Records a value. -/
def record (v : Value) : Watch σ Unit := act (Act.lift (recording [v]))

/-- Leaves a block behind. -/
def pass (marked : Bool) (r : Result) : Watch σ Unit := fun s =>
  ⟨.ok (), s, if marked then some ⟨r, s⟩ else none⟩

/-- Leaves a block behind unless that stops. -/
def through (marked : Bool) (x : Watch σ Ending) : Watch σ Ending := do
  let e ← x
  if e.stops then pure e
  else do
    pass marked e.result
    pure e

/-- Something watched up to so many times, until it stops. -/
def rounds (once : Watch σ Ending) : Nat → Result → Watch σ Ending
  | 0, last => pure { result := last, stops := false }
  | n + 1, last => do
    record last.value
    let e ← once
    if e.stops then pure e else rounds once n e.result

end Watch

mutual

/-- Watches a statement, evaluated as if for the first time, leave marked blocks behind. -/
def Statement.watched (call : Call → Act σ Result) : Statement → Mark → Watch σ Ending
  | .action d, _ => .act ((Statement.action d).meaning recording call)
  | .block d .conditional ⟨statements, _, _, _⟩, m => do
    match ← Watch.act ((Condition.ofText d.text.toList).meaning recording call) with
    | .replan r => pure { result := r, stops := true }
    | .holds false => Watch.through m.returned (pure { result := .none, stops := false })
    | .holds true => Watch.through m.returned (watchedAll call statements m.body.inner .none)
  | .block _ (.loop n) ⟨statements, _, _, _⟩, m =>
    Watch.through m.returned (Watch.rounds
      (Watch.through m.returned (watchedAll call statements m.body.inner .none)) n.toNat .none)
  | .code d, _ => .act ((Statement.code d).meaning recording call)
  | .condition d, _ => .act ((Statement.condition d).meaning recording call)
  | .count d, _ => .act ((Statement.count d).meaning recording call)

/-- Watches statements in order. -/
def watchedAll (call : Call → Act σ Result) :
    List Statement → List Mark → Result → Watch σ Ending
  | [], _, last => pure { result := last, stops := false }
  | s :: rest, marks, _ => do
    let e ← s.watched call (marks.headD .fresh)
    if e.stops then do
      Watch.record e.result.value
      pure e
    else watchedAll call rest marks.tail e.result

end

/-- A conditional is watched where it is skipped and where its body is left. -/
theorem Statement.watched_conditional (call : Call → Act σ Result) (d : Draft) (body : Program)
    (m : Mark) :
    (Statement.block d .conditional body).watched call m = (do
      match ← Watch.act ((Condition.ofText d.text.toList).meaning recording call) with
      | .replan r => pure { result := r, stops := true }
      | .holds false => Watch.through m.returned (pure { result := .none, stops := false })
      | .holds true =>
        Watch.through m.returned (watchedAll call body.statements m.body.inner .none)) := by
  rw [Statement.watched]

/-- A loop is watched at the end of each round and at its own. -/
theorem Statement.watched_loop (call : Call → Act σ Result) (d : Draft) (n : Int) (body : Program)
    (m : Mark) :
    (Statement.block d (.loop n) body).watched call m =
      Watch.through m.returned (Watch.rounds
        (Watch.through m.returned (watchedAll call body.statements m.body.inner .none)) n.toNat
        .none) := by
  rw [Statement.watched]

/-! ### Watching does not change what happens -/

/-- Watching an evaluation shows what it comes to. -/
def Watch.Shows (x : Watch σ α) (y : Act σ α) : Prop :=
  ∀ s, y.exec s = ((x s).outcome, (x s).setting)

/-- Watching a computation in two parts shows it if it shows both parts. -/
theorem Watch.Shows.bind {x : Watch σ α} {y : Act σ α} {f : α → Watch σ β} {g : α → Act σ β}
    (h : x.Shows y) (hnext : ∀ a, (f a).Shows (g a)) : (x >>= f).Shows (y >>= g) := by
  intro s
  rw [Act.exec_bind, h s]
  change _ = ((Watch.andThen x f s).outcome, (Watch.andThen x f s).setting)
  unfold Watch.andThen
  cases hx : x s with
  | mk outcome s' passed =>
      cases outcome with
      | ok a => exact hnext a s'
      | error e => rfl

theorem Watch.shows_pure (a : α) : (pure a : Watch σ α).Shows (pure a) := fun _ => rfl

/-- An act that is watched as a whole shows itself. -/
theorem Watch.shows_act (y : Act σ α) : (Watch.act y).Shows y := fun _ => rfl

/-- Noting a point does not change what is shown. -/
theorem Watch.Shows.through {x : Watch σ Ending} {y : Act σ Ending} (h : x.Shows y)
    (marked : Bool) : (Watch.through marked x).Shows y := by
  rw [← bind_pure y]
  refine h.bind fun e s => ?_
  cases hstops : e.stops <;> rfl

/-- Watching the rounds of a loop shows the rounds. -/
theorem Watch.Shows.rounds {x : Watch σ Ending} {y : Act σ Ending} (h : x.Shows y) (n : Nat)
    (last : Result) : (Watch.rounds x n last).Shows (Plan.rounds recording y n last) := by
  induction n generalizing last with
  | zero => exact Watch.shows_pure _
  | succ n ih =>
      refine (Watch.shows_act _).bind fun _ => h.bind fun e => ?_
      cases e.stops with
      | true => exact Watch.shows_pure e
      | false => exact ih e.result

/-- Watching statements in order shows their sequence, if this is so for each of them. -/
theorem shows_watchedAll {call : Call → Act σ Result} {statements : List Statement}
    (h : ∀ t ∈ statements, ∀ m, (t.watched call m).Shows (t.meaning recording call))
    (marks : List Mark) (last : Result) :
    (watchedAll call statements marks last).Shows (sequence recording call statements last) := by
  induction statements generalizing marks last with
  | nil =>
      rw [watchedAll, sequence]
      exact Watch.shows_pure _
  | cons t rest ih =>
      obtain ⟨ht, hrest⟩ := List.forall_mem_cons.1 h
      rw [watchedAll, sequence]
      refine (ht _).bind fun e => ?_
      cases e.stops with
      | true => exact (Watch.shows_act _).bind fun _ => Watch.shows_pure e
      | false => exact ih hrest marks.tail e.result

/-- **Watching a statement shows its meaning.** -/
theorem Statement.Whole.shows_watched (call : Call → Act σ Result) {t : Statement} (h : t.Whole)
    (m : Mark) : (t.watched call m).Shows (t.meaning recording call) := by
  induction h generalizing m with
  | action d =>
      rw [Statement.watched]
      exact Watch.shows_act _
  | @block d head body hlisted hfinished ih =>
      have hbody := shows_watchedAll ih m.body.inner .none
      cases head with
      | conditional =>
          rw [Statement.watched_conditional, Statement.meaning_conditional]
          refine (Watch.shows_act _).bind fun v => ?_
          cases v with
          | replan r => exact Watch.shows_pure _
          | holds b =>
              cases b with
              | false => exact (Watch.shows_pure _).through m.returned
              | true => exact hbody.through m.returned
      | loop n =>
          rw [Statement.watched_loop, Statement.meaning_loop]
          exact ((hbody.through m.returned).rounds n.toNat .none).through m.returned

/-! ### Watching without marks -/

/-- Acts in order are watched one after the other. -/
theorem Watch.act_bind (x : Act σ α) (f : α → Act σ β) :
    Watch.act (x >>= f) = (Watch.act x >>= fun a => Watch.act (f a)) := by
  funext s
  change _ = Watch.andThen (Watch.act x) _ s
  unfold Watch.andThen Watch.act
  rw [Act.exec_bind]
  cases x.exec s with
  | mk outcome s' =>
      cases outcome with
      | ok a => rfl
      | error e => rfl

/-- Where no block is marked, no point is noted. -/
theorem Watch.through_act (x : Act σ Ending) : Watch.through false (Watch.act x) = Watch.act x := by
  have hthrough : Watch.through false (Watch.act x) = Watch.act (x >>= pure) := by
    rw [Watch.act_bind, Watch.through]
    congr 1
    funext e
    cases e.stops <;> rfl
  rw [hthrough, bind_pure]

/-- Nor in the rounds of a loop. -/
theorem Watch.rounds_act (x : Act σ Ending) (n : Nat) (last : Result) :
    Watch.rounds (Watch.act x) n last = Watch.act (Plan.rounds recording x n last) := by
  induction n generalizing last with
  | zero => rfl
  | succ n ih =>
      rw [Watch.rounds, Plan.rounds, Watch.act_bind, Watch.record]
      congr 1
      funext _
      rw [Watch.act_bind]
      congr 1
      funext e
      cases e.stops with
      | true => rfl
      | false => exact ih e.result

/-- Nor in statements without marks. -/
theorem watchedAll_nil {call : Call → Act σ Result} {statements : List Statement}
    (h : ∀ t ∈ statements, t.watched call .fresh = Watch.act (t.meaning recording call))
    (last : Result) :
    watchedAll call statements [] last = Watch.act (sequence recording call statements last) := by
  induction statements generalizing last with
  | nil =>
      rw [watchedAll, sequence]
      rfl
  | cons t rest ih =>
      obtain ⟨ht, hrest⟩ := List.forall_mem_cons.1 h
      rw [watchedAll, sequence, Watch.act_bind, List.headD_nil, ht]
      congr 1
      funext e
      cases e.stops with
      | true => exact (Watch.act_bind (Act.lift (recording [e.result.value])) fun _ => pure e).symm
      | false => exact ih hrest e.result

/-- Where nothing is marked, watching shows nothing but the evaluation. -/
theorem Statement.Whole.watched_fresh (call : Call → Act σ Result) {t : Statement} (h : t.Whole) :
    t.watched call .fresh = Watch.act (t.meaning recording call) := by
  induction h with
  | action d => rw [Statement.watched]
  | @block d head body hlisted hfinished ih =>
      have hbody : watchedAll call body.statements Mark.fresh.body.inner .none =
          Watch.act (sequence recording call body.statements .none) := watchedAll_nil ih .none
      have hmark : Mark.fresh.returned = false := rfl
      cases head with
      | conditional =>
          rw [Statement.watched_conditional, Statement.meaning_conditional, Watch.act_bind, hbody,
            hmark]
          congr 1
          funext v
          cases v with
          | replan r => rfl
          | holds b =>
              cases b with
              | false => rfl
              | true => exact Watch.through_act _
      | loop n =>
          rw [Statement.watched_loop, Statement.meaning_loop, hbody, hmark, Watch.through_act,
            Watch.rounds_act, Watch.through_act]

end DronePilot.Plan
