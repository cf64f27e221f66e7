import DronePilot.Proofs.Session

/-!
# The course of a session

However the moves of the reader and the executor alternate, a session comes to the same end.  The
reason is an invariant that looks ahead: from every session on the way, doing what is left on the
plan *as it will be in the end* has the effect that doing all of it has from the start (`Course`).
A move of the reader keeps this since the plan only grows (`Tracks.read`), and a move of the
executor keeps it since a block that is begun early and gone on with later has the same effect as
one that is begun late (`Tracks.serve`).

The invariant also keeps the executor's books: how many statements it still expects, and what it has
delivered.
-/

namespace DronePilot.Plan

variable {σ : Type}

/-- The statements of a plan that can be started, in order. -/
def Body.startable (p : Program) : List Statement :=
  (List.range p.issued).map p.statementAt

/-- The statement at a position is the next one that can be started. -/
theorem Body.startable_drop {p : Program} {k : Nat} (h : k < p.issued) :
    p.startable.drop k = p.statementAt k :: p.startable.drop (k + 1) := by
  have hlength : k < p.startable.length := by simpa [Body.startable] using h
  rw [List.drop_eq_getElem_cons hlength]
  simp [Body.startable]

/-- Beyond those that were issued none can be started. -/
theorem Body.startable_drop_of_le {p : Program} {k : Nat} (h : p.issued ≤ k) :
    p.startable.drop k = [] := by
  apply List.drop_eq_nil_of_le
  simpa [Body.startable] using h

/-- What the reading of chunks comes to. -/
def Intake.readAll (i : Intake) (chunks : List Chunk) : Intake × Reading :=
  ((i.takeAll chunks).1, (i.takeAll chunks).2.2)

/-- The text of a plan leaves no block open, or stops the reading with a failure. -/
def LeavesNoneOpen (final : Intake × Reading) : Prop :=
  (∃ f, final.2 = .failed f) ∨ final.1.program.current.isOpenBlock = false

/-- What is left to be read, from a phase on: the intake in the end, and how the reading ends. -/
def Phase.rest : Phase → Intake → Intake × Reading
  | .reading text chunks, i =>
    match i.feed text with
    | (i', .more) => i'.readAll chunks
    | stopped => stopped
  | .read r, i => (i, r)
  | .done r, i => (i, r)

/-- The plan has been read without a failure, and its statements are counted. -/
def Phase.isConcluded : Phase → Bool
  | .done .more | .done .closed => true
  | .done (.failed _) | .read _ | .reading .. => false

/-- Reading a character leaves the rest to be read. -/
theorem Phase.rest_character (i : Intake) (c : Char) (text : List Char) (chunks : List Chunk) :
    ((i.feed [c]).2.leadsTo (.reading text chunks)).rest (i.feed [c]).1 =
      (Phase.reading (c :: text) chunks).rest i := by
  by_cases hmore : (i.feed [c]).2 = .more
  · simp only [Phase.rest, Intake.feed_cons_of_more hmore text, hmore, Reading.leadsTo]
  · simp only [Phase.rest, Intake.feed_cons_of_stopped hmore text]
    cases hfeed : i.feed [c] with
    | mk i' r =>
        rw [hfeed] at hmore
        cases r with
        | more => exact absurd rfl hmore
        | _ => rfl

/-- Opening a chunk changes nothing in what is to be read. -/
theorem Phase.rest_chunk (i : Intake) (chunk : Chunk) (rest : List Chunk) :
    (chunk.opening rest).rest i = (Phase.reading [] (chunk :: rest)).rest i := by
  simp only [Phase.rest, Intake.feed, Intake.readAll, Intake.takeAll, Intake.take, Chunk.opening]
  cases chunk.text? with
  | error f => rfl
  | ok text? =>
      cases text? with
      | none => rfl
      | some text =>
          by_cases hempty : text = ""
          · subst hempty
            simp [Intake.feed]
          · simp only [hempty, if_false]
            cases i.feed text.toList with
            | mk i' r => cases r <;> rfl

/-- What is yet to be read makes the plan grow. -/
theorem Phase.rest_grows {i : Intake} (hi : i.Sound) (phase : Phase) :
    i.program.Grows (phase.rest i).1.program := by
  cases phase with
  | read r => exact Body.Grows.refl_of_sound hi.program
  | done r => exact Body.Grows.refl_of_sound hi.program
  | reading text chunks =>
      obtain ⟨hsound, hgrows⟩ := hi.feed text
      simp only [Phase.rest]
      cases hfeed : i.feed text with
      | mk i' r =>
          rw [hfeed] at hsound hgrows
          cases r with
          | more => exact hgrows.trans (hsound.takeAll chunks).2
          | closed => exact hgrows
          | failed f => exact hgrows

/-- Where an executor stands that has done `k` statements of a plan.  As much of the plan as has
been read is `program`, all of it is `final`; `target` is the effect of evaluating all of it in
order, and `scope` the world and the variables as they are.  An executor that has ended without a
return has done so by counting the statements. -/
inductive Course (call : Call → Run σ Result) (final program : Program)
    (target : Except Halt (Option Result) × Scope σ) (byCount : Prop) (scope : Scope σ) (k : Nat)
    (queue : List Ticket) : Activity → Prop
  | idle (hk : k ≤ program.issued) (hqueue : queue = tickets k program.issued)
      (heffect : (inOrder call (final.startable.drop k)).effect scope = target) :
      Course call final program target byCount scope k queue .idle
  | waiting {p : Pending} (hk : k < program.issued)
      (hticket : p.ticket = { plan := 0, position := k })
      (hqueue : queue = tickets (k + 1) program.issued)
      (hfits : (program.statementAt k).Fits p.trail)
      (heffect : ((final.statementAt k).carryOn call p.rounds p.last p.trail >>=
        Stage.andThen (inOrder call (final.startable.drop (k + 1)))).effect scope = target) :
      Course call final program target byCount scope k queue (.waiting p)
  | returned {r : Result} (htarget : target = (.ok (some r), scope)) :
      Course call final program target byCount scope k queue (.ended r)
  | counted {r : Result} (htarget : target = (.ok none, scope)) (hcount : byCount) :
      Course call final program target byCount scope k queue (.ended r)
  | halted {f : Halt} (htarget : target = (.error f, scope)) :
      Course call final program target byCount scope k queue (.halted f)

/-- More of the plan is read, and what became ready is in the queue. -/
theorem Course.grow {call : Call → Run σ Result} {final program program' : Program}
    {target : Except Halt (Option Result) × Scope σ} {byCount byCount' : Prop} {scope : Scope σ}
    {k : Nat} {queue : List Ticket} {activity : Activity}
    (h : Course call final program target byCount scope k queue activity)
    (hgrows : program.Grows program') (hcount : byCount → byCount') :
    Course call final program' target byCount' scope k
      (queue ++ tickets program.issued program'.issued) activity := by
  cases h with
  | idle hk hqueue heffect =>
      refine .idle (Nat.le_trans hk hgrows.issued_le) ?_ heffect
      rw [hqueue, tickets_append hk hgrows.issued_le]
  | waiting hk hticket hqueue hfits heffect =>
      refine .waiting (Nat.lt_of_lt_of_le hk hgrows.issued_le) hticket ?_
        (hfits.continues (hgrows.continues k hk)) heffect
      rw [hqueue, tickets_append hk hgrows.issued_le]
  | returned htarget => exact .returned htarget
  | counted htarget hbefore => exact .counted htarget (hcount hbefore)
  | halted htarget => exact .halted htarget

/-- The same executor on the same plan, at a later phase. -/
theorem Course.mono {call : Call → Run σ Result} {final program : Program}
    {target : Except Halt (Option Result) × Scope σ} {byCount byCount' : Prop} {scope : Scope σ}
    {k : Nat} {queue : List Ticket} {activity : Activity}
    (h : Course call final program target byCount scope k queue activity)
    (hcount : byCount → byCount') :
    Course call final program target byCount' scope k queue activity := by
  cases h with
  | idle hk hqueue heffect => exact .idle hk hqueue heffect
  | waiting hk hticket hqueue hfits heffect => exact .waiting hk hticket hqueue hfits heffect
  | returned htarget => exact .returned htarget
  | counted htarget hbefore => exact .counted htarget (hcount hbefore)
  | halted htarget => exact .halted htarget

namespace Session

/-- The number of statements after which the executor ends: those of the plan, and as many as had
been executed when they were counted.  Without a count it does not end in this way. -/
def due (s : Session σ) (final : Program) : Int :=
  if s.phase.isConcluded then final.statements.length + s.early else 0

/-- What holds of a session at all times: it reads the plan `final`, and its executor is on
course. -/
structure Tracks (kit : Toolkit σ) (final : Intake × Reading) (world : σ) (s : Session σ)
    (a : Assignment) : Prop where
  plans : s.executor.plans = #[a]
  sound : a.intake.Sound
  rest : s.phase.rest a.intake = final
  course : Course kit.call final.1.program a.intake.program
    ((inOrder kit.call final.1.program.startable).effect { world := world })
    (s.phase.isConcluded = true ∧ s.early = 0) { world := s.world, bindings := a.bindings }
    s.executor.history.length s.executor.queue s.executor.activity
  expected : s.executor.isOver = false →
    s.executor.expected = s.due final.1.program - s.executor.history.length
  unfinished : s.executor.isOver = false → s.phase.isConcluded = true →
    final.1.program.statements ≠ [] → s.executor.expected ≠ 0
  delivered : s.delivered = s.executor.results

/-- At the start everything is yet to be read. -/
theorem Tracks.start (kit : Toolkit σ) (chunks : List Chunk) (world : σ) :
    (start chunks world).Tracks kit (({} : Intake).readAll chunks) world {} where
  plans := rfl
  sound := Intake.sound_fresh
  rest := rfl
  course := .idle (Nat.zero_le _) rfl rfl
  expected _ := rfl
  unfinished _ h := by cases h
  delivered := rfl

section

variable {kit : Toolkit σ} {final : Intake × Reading} {world : σ} {s : Session σ} {a : Assignment}

/-- At the end of the text, the statements of the plan are due, and the early ones once more. -/
theorem due_of_concluded {p : Program} (h : s.phase.isConcluded = true) :
    s.due p = p.statements.length + s.early := by
  simp [due, h]

/-- Before that, none is due. -/
theorem due_of_not_concluded {p : Program} (h : s.phase.isConcluded = false) : s.due p = 0 := by
  simp [due, h]

/-- A move of the reader that only changes the phase, before the plan is concluded. -/
theorem Tracks.rephase (h : s.Tracks kit final world a) {phase : Phase}
    (hbefore : s.phase.isConcluded = false) (hafter : phase.isConcluded = false)
    (hrest : phase.rest a.intake = final) : { s with phase := phase }.Tracks kit final world a where
  plans := h.plans
  sound := h.sound
  rest := hrest
  course := h.course.mono fun hcount => by rw [hbefore] at hcount; cases hcount.1
  expected hover := by
    rw [due_of_not_concluded hafter, ← due_of_not_concluded hbefore]
    exact h.expected hover
  unfinished _ hconcluded := by rw [hafter] at hconcluded; cases hconcluded
  delivered := h.delivered

/-- Reading a character stays on track. -/
theorem Tracks.readCharacter (h : s.Tracks kit final world a) {c : Char} {text : List Char}
    {chunks : List Chunk} (hphase : s.phase = .reading (c :: text) chunks) :
    ∃ a', s.read.Tracks kit final world a' := by
  obtain ⟨hsound, hgrows⟩ := h.sound.feed [c]
  have hafter : ((a.intake.feed [c]).2.leadsTo (.reading text chunks)).isConcluded = false := by
    cases (a.intake.feed [c]).2 <;> rfl
  have hbefore : s.phase.isConcluded = false := by rw [hphase]; rfl
  rw [read_character h.plans h.sound hphase]
  refine ⟨{ a with intake := (a.intake.feed [c]).1 }, ?_⟩
  exact
    { plans := rfl
      sound := hsound
      rest := by rw [← h.rest, hphase]; exact Phase.rest_character _ _ _ _
      course := h.course.grow hgrows fun hcount => by rw [hbefore] at hcount; cases hcount.1
      expected := fun hover => by
        rw [due_of_not_concluded hafter, ← due_of_not_concluded hbefore]
        exact h.expected hover
      unfinished := fun _ hconcluded => by rw [hafter] at hconcluded; cases hconcluded
      delivered := h.delivered }

/-- The plan is concluded: from now on its statements are counted. -/
theorem Tracks.conclude (h : s.Tracks kit final world a) {r : Reading}
    (hphase : s.phase = .read r) : s.read.Tracks kit final world a := by
  have hfinal : (a.intake, r) = final := by rw [← h.rest, hphase]; rfl
  have hbefore : s.phase.isConcluded = false := by rw [hphase]; rfl
  subst hfinal
  have hcourse : Course _ _ _ _ ((Phase.done r).isConcluded = true ∧ s.executor.history.length = 0)
      _ _ _ _ := h.course.mono fun hcount => by rw [hbefore] at hcount; cases hcount.1
  rw [read_of_read hphase]
  have hcounted : (Phase.done r).isConcluded = true →
      (s.executor.conclude r).2 =
        { s.executor with expected := a.intake.program.statements.length } := by
    intro hconcluded
    cases r with
    | failed f => cases hconcluded
    | _ => simp [Executor.conclude, Executor.closePlan, h.plans]
  cases hconcluded : (Phase.done r).isConcluded with
  | false =>
      have hsame : (s.executor.conclude r).2 = s.executor := by
        cases r with
        | failed f => rfl
        | _ => cases hconcluded
      rw [hsame]
      exact
        { plans := h.plans
          sound := h.sound
          rest := rfl
          course := hcourse
          expected := fun hover => by
            rw [due_of_not_concluded hconcluded, ← due_of_not_concluded hbefore]
            exact h.expected hover
          unfinished := fun _ hafter => by rw [hconcluded] at hafter; cases hafter
          delivered := h.delivered }
  | true =>
      rw [hcounted hconcluded]
      exact
        { plans := h.plans
          sound := h.sound
          rest := rfl
          course := hcourse
          expected := fun _ => by
            rw [due_of_concluded hconcluded]
            exact (Int.add_sub_cancel _ _).symm
          unfinished := fun _ _ hne => by
            simpa using hne
          delivered := h.delivered }

/-- **A move of the reader keeps the course.** -/
theorem Tracks.read (h : s.Tracks kit final world a) : ∃ a', s.read.Tracks kit final world a' := by
  cases hphase : s.phase with
  | done r => exact ⟨a, by rw [read_of_done hphase]; exact h⟩
  | read r => exact ⟨a, h.conclude hphase⟩
  | reading text chunks =>
      have hbefore : s.phase.isConcluded = false := by rw [hphase]; rfl
      cases text with
      | cons c text => exact h.readCharacter hphase
      | nil =>
          refine ⟨a, ?_⟩
          cases chunks with
          | nil =>
              rw [read_of_end hphase]
              exact h.rephase hbefore rfl (by rw [← h.rest, hphase]; rfl)
          | cons chunk rest =>
              rw [read_of_chunk hphase]
              refine h.rephase hbefore ?_ (by rw [← h.rest, hphase]; exact Phase.rest_chunk _ _ _)
              unfold Chunk.opening
              split <;> rfl

/-- A session whose plan is concluded has read all of it. -/
theorem Tracks.intake_of_concluded (h : s.Tracks kit final world a)
    (hconcluded : s.phase.isConcluded = true) :
    a.intake = final.1 ∧ ∀ f, final.2 ≠ .failed f := by
  have hrest := h.rest
  cases hphase : s.phase with
  | reading text chunks => rw [hphase] at hconcluded; cases hconcluded
  | read r => rw [hphase] at hconcluded; cases hconcluded
  | done r =>
      rw [hphase] at hrest hconcluded
      cases hrest
      refine ⟨rfl, ?_⟩
      rintro f rfl
      cases hconcluded

/-- The executor can end by its count only with the last statement, and only if none was executed
before the plan was concluded. -/
theorem Tracks.last_of_expected (h : s.Tracks kit final world a)
    (hend : LeavesNoneOpen final)
    (hover : s.executor.isOver = false)
    (hk : s.executor.history.length < a.intake.program.issued) (hone : s.executor.expected = 1) :
    (s.phase.isConcluded = true ∧ s.early = 0) ∧
      final.1.program.issued ≤ s.executor.history.length + 1 := by
  have hexpected := h.expected hover
  rw [hone] at hexpected
  cases hconcluded : s.phase.isConcluded with
  | false =>
      rw [due_of_not_concluded hconcluded] at hexpected
      omega
  | true =>
      obtain ⟨hintake, hfailed⟩ := h.intake_of_concluded hconcluded
      have hclosed := hend.resolve_left fun ⟨f, hf⟩ => hfailed f hf
      have hissued : final.1.program.issued = final.1.program.statements.length := by
        simp [Body.issued, hclosed]
      rw [due_of_concluded hconcluded] at hexpected
      rw [hintake, hissued] at hk
      rw [hissued]
      refine ⟨⟨rfl, ?_⟩, ?_⟩ <;> omega

/-- What holds of a session after a move of the executor: if it waits, then at the end of what has
been read. -/
structure Advanced (kit : Toolkit σ) (final : Intake × Reading) (world : σ) (s : Session σ)
    (a : Assignment) : Prop where
  tracks : s.Tracks kit final world a
  waits : ∀ p, s.executor.activity = .waiting p →
    (a.intake.program.statementAt s.executor.history.length).WaitsAt p.trail

/-- The executor has come from one stage to the next, and is on course still. -/
theorem Tracks.booked (h : s.Tracks kit final world a) (hover : s.executor.isOver = false)
    {e : Executor} {world' : σ} {bindings : Variables}
    (hplans : e.plans = #[{ a with bindings := bindings }])
    (hcourse : Course kit.call final.1.program a.intake.program
      ((inOrder kit.call final.1.program.startable).effect { world := world })
      (s.phase.isConcluded = true ∧ s.early = 0) { world := world', bindings := bindings }
      e.history.length e.queue e.activity)
    (hcount : e.isOver = false → e.expected = s.due final.1.program - e.history.length ∧
      (s.phase.isConcluded = true → final.1.program.statements ≠ [] → e.expected ≠ 0)) :
    (s.after (e, world')).Tracks kit final world { a with bindings := bindings } where
  plans := hplans
  sound := h.sound
  rest := h.rest
  course := hcourse
  expected hover' := (hcount hover').1
  unfinished hover' := (hcount hover').2
  delivered := by
    simp [after, hover, h.delivered, Executor.results_of_not_over hover]

/-- The statement at hand is done: the executor goes on, or ends if it was the last one expected. -/
theorem Tracks.booked_done (h : s.Tracks kit final world a) (hend : LeavesNoneOpen final)
    (hover : s.executor.isOver = false)
    (hk : s.executor.history.length < a.intake.program.issued) {r : Result} {scope : Scope σ}
    (heffect : (inOrder kit.call
        (final.1.program.startable.drop (s.executor.history.length + 1))).effect scope.lowered =
      (inOrder kit.call final.1.program.startable).effect { world := world }) :
    (s.after ({ s.executor with
        plans := #[{ a with bindings := scope.bindings }]
        queue := tickets (s.executor.history.length + 1) a.intake.program.issued }.book
          { plan := 0, position := s.executor.history.length } (.ok (.done r false)),
        scope.world)).Tracks kit final world { a with bindings := scope.bindings } := by
  have hlength : (s.executor.history ++
      [({ plan := 0, position := s.executor.history.length } : Ticket)]).length =
      s.executor.history.length + 1 := List.length_append
  by_cases hone : s.executor.expected = 1
  · obtain ⟨hcount, hlast⟩ := h.last_of_expected hend hover hk hone
    rw [Body.startable_drop_of_le hlast] at heffect
    rw [Executor.book_last (by exact hone)]
    exact h.booked hover rfl (.counted heffect.symm hcount) fun hover' => by cases hover'
  · have hexpected := h.expected hover
    rw [Executor.book_done (by exact hone)]
    refine h.booked hover rfl ?_ fun _ => ?_
    · rw [hlength]
      exact .idle hk rfl heffect
    · rw [hlength]
      exact ⟨by dsimp only; omega, fun _ _ => by dsimp only; omega⟩

/-- Serving a statement keeps the course.  Here `early` evaluates the statement at hand as it stands
now, and `late` as it stands in the end. -/
theorem Tracks.evaluate (h : s.Tracks kit final world a)
    (hend : LeavesNoneOpen final)
    (hover : s.executor.isOver = false) {k : Nat} (hhistory : s.executor.history.length = k)
    (hk : k < a.intake.program.issued) {early late : Run σ Stage}
    (hlate : ∀ scope, late.exec scope =
      (early >>= Stage.resume ((final.1.program.statementAt k).carryOn kit.call)).exec scope)
    (heffect : (late >>= Stage.andThen
        (inOrder kit.call (final.1.program.startable.drop (k + 1)))).effect
        { world := s.world, bindings := a.bindings } =
      (inOrder kit.call final.1.program.startable).effect { world := world })
    (hwaits : ∀ scope rounds last trail scope',
      early.exec scope = (.ok (.pending rounds last trail), scope') →
        (a.intake.program.statementAt k).WaitsAt trail) :
    ∃ bindings, (s.after ({ s.executor with
        queue := tickets (k + 1) a.intake.program.issued }.evaluate s.world
          { plan := 0, position := k } early)).Advanced kit final world
            { a with bindings := bindings } := by
  subst hhistory
  cases hexec : early.exec { world := s.world, bindings := a.bindings } with
  | mk outcome scope =>
      rw [Executor.evaluate_eq (by exact h.plans) hexec]
      rw [effect_andThen kit.call_ignoresFlag (inOrder_ignoresFlag kit.call_ignoresFlag _)
        (hlate _) hexec] at heffect
      refine ⟨scope.bindings, ?_, fun p hwaiting => ?_⟩
      · cases outcome with
        | error f =>
            exact h.booked hover rfl (.halted heffect.symm) fun hover' => by cases hover'
        | ok stage =>
            cases stage with
            | pending rounds last trail =>
                exact h.booked hover rfl
                  (.waiting hk rfl rfl (hwaits _ _ _ _ _ hexec).fits heffect)
                  fun _ => ⟨h.expected hover, h.unfinished hover⟩
            | done r returned =>
                cases returned with
                | true =>
                    exact h.booked hover rfl (.returned heffect.symm) fun hover' => by cases hover'
                | false => exact h.booked_done hend hover hk heffect
      · have houtcome := Executor.outcome_of_book hwaiting
        subst houtcome
        exact hwaits _ _ _ _ _ hexec

/-- The executor has the statements of the plan that is being read. -/
theorem Tracks.statement (h : s.Tracks kit final world a) (k : Nat) :
    s.executor.statement { plan := 0, position := k } = a.intake.program.statementAt k := by
  simp [Executor.statement, h.plans]

/-- That plan grows into the final one. -/
theorem Tracks.grows (h : s.Tracks kit final world a) :
    a.intake.program.Grows final.1.program := by
  have hgrows := Phase.rest_grows h.sound s.phase
  rwa [h.rest] at hgrows

/-- **A move of the executor keeps the course.** -/
theorem Tracks.serve (h : s.Tracks kit final world a)
    (hend : LeavesNoneOpen final) :
    ∃ bindings, (s.serve kit).Advanced kit final world { a with bindings := bindings } := by
  have hcourse := h.course
  generalize hhistory : s.executor.history.length = k at hcourse
  cases hactivity : s.executor.activity with
  | ended r =>
      rw [serve_of_isOver (by simp [Executor.isOver, hactivity])]
      exact ⟨a.bindings, h, by simp [hactivity]⟩
  | halted f =>
      rw [serve_of_isOver (by simp [Executor.isOver, hactivity])]
      exact ⟨a.bindings, h, by simp [hactivity]⟩
  | idle =>
      rw [hactivity] at hcourse
      cases hcourse with
      | idle hk hqueue heffect =>
          by_cases hlt : k < a.intake.program.issued
          · have hcontinues := h.grows.continues k hlt
            rw [tickets_of_lt hlt] at hqueue
            rw [Session.serve, Executor.serve_of_queue hactivity hqueue, h.statement]
            rw [Body.startable_drop (Nat.lt_of_lt_of_le hlt h.grows.issued_le)] at heffect
            exact h.evaluate hend (by simp [Executor.isOver, hactivity]) hhistory hlt
              (hcontinues.exec_start kit.call) heffect
              fun _ _ _ _ _ hpending => Statement.waitsAt_of_start hpending
          · rw [tickets_of_le (Nat.le_of_not_lt hlt)] at hqueue
            rw [Session.serve, Executor.serve_of_empty hactivity hqueue, after_self s]
            exact ⟨a.bindings, h, by simp [hactivity]⟩
  | waiting p =>
      rw [hactivity] at hcourse
      cases hcourse with
      | waiting hk hticket hqueue hfits heffect =>
          have hcontinues := h.grows.continues k hk
          have hself : { s.executor with queue := tickets (k + 1) a.intake.program.issued } =
              s.executor := by rw [← hqueue]
          rw [Session.serve, Executor.serve_of_waiting hactivity, hticket, h.statement, ← hself]
          exact h.evaluate hend (by simp [Executor.isOver, hactivity]) hhistory hk
            (hcontinues.exec_carryOn kit.call hfits) heffect
            fun _ _ _ _ _ hpending => hfits.waitsAt hpending

/-- Every session is on course. -/
theorem Reachable.tracks {chunks : List Chunk}
    (hend : LeavesNoneOpen (({} : Intake).readAll chunks)) (h : Reachable kit chunks world s) :
    ∃ a, s.Tracks kit (({} : Intake).readAll chunks) world a := by
  induction h with
  | start => exact ⟨{}, Tracks.start kit chunks world⟩
  | read _ ih =>
      obtain ⟨a, ha⟩ := ih
      exact ha.read
  | serve _ ih =>
      obtain ⟨a, ha⟩ := ih
      obtain ⟨bindings, hadvanced⟩ := ha.serve hend
      exact ⟨_, hadvanced.tracks⟩

end

end Session

end DronePilot.Plan
