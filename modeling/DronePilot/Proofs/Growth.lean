import DronePilot.Plan.Executor
import DronePilot.Proofs.Reading

/-!
# How a plan grows while it is read

The executor looks statements up by position in a plan that is still being read, so what stands at
a position has to stay what it was.  It does, except that the body of an open block gets longer:
`Statement.Continues` is that relation, and `Body.step_grows` says that every character keeps to it.

At every time the positions handed out are those of the complete statements and, if a block is open
at the outermost level, the one after them (`Body.issued`).  A character hands out at most the next
position, so an intake that began with a fresh plan has handed out all of them, in order and each
once (`Intake.Sound`).
-/

namespace DronePilot.Plan

/-- A statement that has been read to its end. -/
def Statement.isComplete : Statement → Bool
  | .action _ => true
  | .block _ _ body => body.finished
  | .code _ | .condition _ | .count _ => false

/-- Only complete statements are listed, and the statement under way is not complete. -/
structure Body.Sound (p : Program) : Prop where
  listed : ∀ s ∈ p.statements, s.isComplete = true
  under_way : p.current.isComplete = false

/-- The number of statements of a plan that can be started: the complete ones, and an open block. -/
def Body.issued (p : Program) : Nat :=
  p.statements.length + if p.current.isOpenBlock then 1 else 0

/-- `s.Continues s'`: the statement is the same, or it is an open block of which more has been
read. -/
inductive Statement.Continues : Statement → Statement → Prop
  | same {s : Statement} (h : s.isOpenBlock = false) : Statement.Continues s s
  | grown {d : Draft} {head : Head} {body body' : Program} (hopen : body.finished = false)
      (hbegins : body.statements <+: body'.statements) :
      Statement.Continues (.block d head body) (.block d head body')

/-- A block is open until its body is finished. -/
@[simp]
theorem Statement.isOpenBlock_block (d : Draft) (head : Head) (body : Program) :
    (Statement.block d head body).isOpenBlock = !body.finished := rfl

@[simp]
theorem Statement.isOpenBlock_fresh : Statement.fresh.isOpenBlock = false := rfl

/-- A fresh body is sound. -/
theorem Body.sound_fresh : Body.fresh.Sound where
  listed := by simp [Body.fresh]
  under_way := rfl

/-- What has been read of a plan stays. -/
theorem Body.statements_prefix_of_step {p : Program} {c : Char} {s : Body.Step}
    (h : p.step c = .ok s) : p.statements <+: s.next.statements := by
  obtain ⟨t, -, rfl⟩ := Body.step_eq_ok h
  rw [Body.advance_eq]
  simp only [Body.taking]
  cases t.ended with
  | false => exact List.prefix_refl _
  | true =>
      cases t.next.isProper with
      | false => exact List.prefix_refl _
      | true => exact List.prefix_append _ _

/-- A plan is finished by the character that closes it. -/
theorem Body.finished_of_step {p : Program} {c : Char} {s : Body.Step} (h : p.step c = .ok s) :
    s.next.finished = (p.finished || s.closed) := by
  obtain ⟨t, -, rfl⟩ := Body.step_eq_ok h
  rw [Body.advance_eq]

/-- **What a character does to a statement that is not complete.**  It goes on, or opens a block
and is ready, or is an action and ends, or is an open block that hands the character to its body. -/
theorem Statement.step_cases {s : Statement} {c : Char} {t : Statement.Step}
    (hs : s.isComplete = false) (h : s.step c = .ok t) :
    (s.isOpenBlock = false ∧ t.next.isComplete = false ∧ t.next.isOpenBlock = false ∧
      t.ended = false ∧ t.ready = false) ∨
    (s.isOpenBlock = false ∧ ∃ d head, t = Statement.opening d head) ∨
    (s.isOpenBlock = false ∧ ∃ d, t = Statement.acting d) ∨
    (∃ d head body u, s = .block d head body ∧ body.finished = false ∧ body.step c = .ok u ∧
      t = { next := .block d head u.next, ended := u.closed, ready := false }) := by
  cases s with
  | action d => cases hs
  | code d =>
      cases h
      unfold Statement.stepCode
      split
      · exact Or.inl ⟨rfl, rfl, rfl, rfl, rfl⟩
      · split
        · exact Or.inr (Or.inr (Or.inl ⟨rfl, _, rfl⟩))
        · split
          · exact Or.inr (Or.inr (Or.inl ⟨rfl, _, rfl⟩))
          · split
            · exact Or.inl ⟨rfl, rfl, rfl, rfl, rfl⟩
            · exact Or.inl ⟨rfl, rfl, rfl, rfl, rfl⟩
  | condition d =>
      rw [Statement.step] at h
      split at h
      · cases h
        exact Or.inr (Or.inl ⟨rfl, _, _, rfl⟩)
      · cases h
        exact Or.inl ⟨rfl, rfl, rfl, rfl, rfl⟩
  | count d =>
      rw [Statement.step] at h
      split at h
      · cases hn : wholeLiteral d.text.toList with
        | error f =>
            rw [hn] at h
            cases h
        | ok n =>
            rw [hn] at h
            cases h
            exact Or.inr (Or.inl ⟨rfl, _, _, rfl⟩)
      · cases h
        exact Or.inl ⟨rfl, rfl, rfl, rfl, rfl⟩
  | block d head body =>
      cases hbody : body.step c with
      | error f =>
          have hcurrent : body.current.step c = .error f := by
            unfold Body.step at hbody
            cases hcurrent : body.current.step c with
            | error f' =>
                rw [hcurrent] at hbody
                cases hbody
                rfl
            | ok t =>
                rw [hcurrent] at hbody
                cases hbody
          cases body with
          | mk statements current depth finished =>
              simp only [Statement.step] at h
              rw [show current.step c = .error f from hcurrent] at h
              cases h
      | ok u =>
          rw [Statement.step_block hbody] at h
          cases h
          exact Or.inr (Or.inr (Or.inr ⟨d, head, body, u, rfl, hs, hbody, rfl⟩))

/-- A complete statement is no open block. -/
theorem Statement.isOpenBlock_of_isComplete {s : Statement} (h : s.isComplete = true) :
    s.isOpenBlock = false := by
  cases s with
  | block d head body =>
      have hfinished : body.finished = true := h
      simp [hfinished]
  | _ => rfl

/-- What continues in two steps continues. -/
theorem Statement.Continues.trans {s t u : Statement} (hst : s.Continues t) (htu : t.Continues u) :
    s.Continues u := by
  cases hst with
  | same hs => exact htu
  | grown hopen hbegins =>
      cases htu with
      | same ht => exact .grown hopen hbegins
      | grown hopen' hbegins' => exact .grown hopen (hbegins.trans hbegins')

/-- A statement that can be started stays what it was as more of the plan is read, up to
`Statement.Continues`. -/
structure Body.Grows (p q : Program) : Prop where
  issued_le : p.issued ≤ q.issued
  continues : ∀ i < p.issued, (p.statementAt i).Continues (q.statementAt i)

/-- What grows in two steps grows. -/
theorem Body.Grows.trans {p q r : Program} (hpq : p.Grows q) (hqr : q.Grows r) : p.Grows r where
  issued_le := Nat.le_trans hpq.issued_le hqr.issued_le
  continues i hi :=
    (hpq.continues i hi).trans (hqr.continues i (Nat.lt_of_lt_of_le hi hpq.issued_le))

/-- The statements that were read are at their positions. -/
theorem Body.statementAt_lt {p : Program} {i : Nat} (hi : i < p.statements.length) :
    p.statementAt i = p.statements.get ⟨i, hi⟩ := by
  simp [Body.statementAt, hi]

/-- The one that is being read comes after them. -/
theorem Body.statementAt_length (p : Program) : p.statementAt p.statements.length = p.current := by
  simp [Body.statementAt]

/-- The listed statements of a sound plan stay the same when the list gets longer. -/
theorem Body.Sound.continues_listed {p q : Program} (hp : p.Sound)
    (hbegins : p.statements <+: q.statements) {i : Nat} (hi : i < p.statements.length) :
    (p.statementAt i).Continues (q.statementAt i) := by
  have hq : q.statementAt i = p.statementAt i := by
    rw [Body.statementAt_lt hi,
      Body.statementAt_lt (Nat.lt_of_lt_of_le hi hbegins.length_le)]
    exact (hbegins.getElem hi).symm
  rw [hq]
  apply Statement.Continues.same
  apply Statement.isOpenBlock_of_isComplete
  rw [Body.statementAt_lt hi]
  exact hp.listed _ (List.get_mem _ _)

/-- How a character can change a plan; the flag says whether a statement became ready. -/
inductive Body.Moves (p q : Program) : Bool → Prop
  /-- The statement under way goes on, or was empty and is dropped. -/
  | stays (hstatements : q.statements = p.statements) (hp : p.current.isOpenBlock = false)
      (hq : q.current.isOpenBlock = false) (hunder : q.current.isComplete = false) :
      Body.Moves p q false
  /-- A block opens. -/
  | opens {d : Draft} {head : Head} (hstatements : q.statements = p.statements)
      (hp : p.current.isOpenBlock = false) (hq : q.current = .block d head Body.fresh) :
      Body.Moves p q true
  /-- An action ends. -/
  | acts {d : Draft} (hstatements : q.statements = p.statements ++ [.action d])
      (hp : p.current.isOpenBlock = false) (hq : q.current = .fresh) : Body.Moves p q true
  /-- The open block takes the character and stays open. -/
  | inside {d : Draft} {head : Head} {body body' : Program}
      (hstatements : q.statements = p.statements) (hp : p.current = .block d head body)
      (hq : q.current = .block d head body') (hopen : body.finished = false)
      (hopen' : body'.finished = false) (hbegins : body.statements <+: body'.statements) :
      Body.Moves p q false
  /-- The open block takes the character and is complete. -/
  | closes {d : Draft} {head : Head} {body body' : Program}
      (hstatements : q.statements = p.statements ++ [.block d head body'])
      (hp : p.current = .block d head body) (hq : q.current = .fresh)
      (hopen : body.finished = false) (hfinished : body'.finished = true)
      (hbegins : body.statements <+: body'.statements) : Body.Moves p q false

/-- Every character changes a sound plan in one of these ways. -/
theorem Body.Sound.moves {p : Program} (hp : p.Sound) {c : Char} {s : Body.Step}
    (h : p.step c = .ok s) : p.Moves s.next s.ready := by
  obtain ⟨t, ht, rfl⟩ := Body.step_eq_ok h
  rw [Body.advance_eq]
  obtain ⟨hopen, hunder, hopen', hended, hready⟩ | ⟨hopen, d, head, rfl⟩ | ⟨hopen, d, rfl⟩ |
    ⟨d, head, body, u, hcurrent, hbody, hu, rfl⟩ := Statement.step_cases hp.under_way ht
  · rw [hready]
    exact .stays (by simp [Body.taking, hended]) hopen (by simpa [Body.taking, hended] using hopen')
      (by simpa [Body.taking, hended] using hunder)
  · exact .opens rfl hopen rfl
  · cases htext : d.text != "" with
    | false =>
        have hready : (Statement.acting d).ready = false := htext
        rw [hready]
        exact .stays (by simp [Body.taking, Statement.acting, Statement.isProper, htext]) hopen rfl
          rfl
    | true =>
        have hready : (Statement.acting d).ready = true := htext
        rw [hready]
        exact .acts (d := d)
          (by simp [Body.taking, Statement.acting, Statement.isProper, htext]) hopen rfl
  · have hbegins := Body.statements_prefix_of_step hu
    have hfinished := Body.finished_of_step hu
    rw [hbody, Bool.false_or] at hfinished
    cases hclosed : u.closed with
    | false =>
        rw [hclosed] at hfinished
        exact .inside rfl hcurrent rfl hbody hfinished hbegins
    | true =>
        rw [hclosed] at hfinished
        exact .closes rfl hcurrent rfl hbody hfinished hbegins

/-- A body stays sound while it is read. -/
theorem Body.Moves.sound {p q : Program} {ready : Bool} (h : p.Moves q ready) (hp : p.Sound) :
    q.Sound := by
  cases h with
  | stays hstatements _ _ hunder => exact ⟨hstatements ▸ hp.listed, hunder⟩
  | opens hstatements _ hq => exact ⟨hstatements ▸ hp.listed, by rw [hq]; rfl⟩
  | acts hstatements _ hq =>
      refine ⟨?_, by rw [hq]; rfl⟩
      rw [hstatements]
      exact List.forall_mem_append.2 ⟨hp.listed, List.forall_mem_singleton.2 rfl⟩
  | inside hstatements _ hq _ hopen' _ => exact ⟨hstatements ▸ hp.listed, by rw [hq]; exact hopen'⟩
  | closes hstatements _ hq _ hfinished _ =>
      refine ⟨?_, by rw [hq]; rfl⟩
      rw [hstatements]
      exact List.forall_mem_append.2 ⟨hp.listed, List.forall_mem_singleton.2 hfinished⟩

/-- A statement that becomes ready is the next one that can be started. -/
theorem Body.Moves.issued {p q : Program} {ready : Bool} (h : p.Moves q ready) :
    q.issued = p.issued + if ready then 1 else 0 := by
  unfold Body.issued
  cases h with
  | stays hstatements hp hq _ => simp [hstatements, hp, hq]
  | opens hstatements hp hq => simp [hstatements, hp, hq, Body.fresh]
  | acts hstatements hp hq => simp [hstatements, hp, hq]
  | inside hstatements hp hq hopen hopen' _ => simp [hstatements, hp, hq, hopen, hopen']
  | closes hstatements hp hq hopen _ _ => simp [hstatements, hp, hq, hopen]

/-- A statement becomes ready only when no block is open, so its position is the number of
statements handed out before it. -/
theorem Body.Moves.issued_of_ready {p q : Program} (h : p.Moves q true) :
    p.issued = p.statements.length := by
  cases h with
  | opens _ hp _ => simp [Body.issued, hp]
  | acts _ hp _ => simp [Body.issued, hp]

/-- Statements that were read stay as they are. -/
theorem Body.Moves.statements_prefix {p q : Program} {ready : Bool} (h : p.Moves q ready) :
    p.statements <+: q.statements := by
  cases h with
  | stays hstatements _ _ _ => exact hstatements ▸ List.prefix_refl _
  | opens hstatements _ _ => exact hstatements ▸ List.prefix_refl _
  | inside hstatements _ _ _ _ _ => exact hstatements ▸ List.prefix_refl _
  | acts hstatements _ _ => exact hstatements ▸ List.prefix_append _ _
  | closes hstatements _ _ _ _ _ => exact hstatements ▸ List.prefix_append _ _

/-- **A character keeps what stands at the positions handed out**, except that it may go into the
open block. -/
theorem Body.Moves.grows {p q : Program} {ready : Bool} (h : p.Moves q ready) (hp : p.Sound) :
    p.Grows q := by
  refine ⟨by rw [h.issued]; exact Nat.le_add_right _ _, ?_⟩
  intro i hi
  by_cases hlisted : i < p.statements.length
  · exact hp.continues_listed h.statements_prefix hlisted
  · -- Only the open block is handed out beyond the list.
    have hopen : p.current.isOpenBlock = true := by
      cases hcurrent : p.current.isOpenBlock with
      | true => rfl
      | false =>
          simp only [Body.issued, hcurrent, Bool.false_eq_true, if_false] at hi
          omega
    have hi' : i = p.statements.length := by
      simp only [Body.issued, hopen, if_true] at hi
      omega
    subst hi'
    rw [Body.statementAt_length]
    cases h with
    | stays _ hclosed _ _ => rw [hclosed] at hopen; cases hopen
    | opens _ hclosed _ => rw [hclosed] at hopen; cases hopen
    | acts _ hclosed _ => rw [hclosed] at hopen; cases hopen
    | inside hstatements hcurrent hq hbody _ hbegins =>
        rw [← hstatements, Body.statementAt_length, hcurrent, hq]
        exact .grown hbody hbegins
    | closes hstatements hcurrent _ hbody _ hbegins =>
        have hq : q.statementAt p.statements.length = _ :=
          Body.statementAt_lt (by rw [hstatements]; simp)
        rw [hq, hcurrent]
        simp only [hstatements, List.get_eq_getElem, List.getElem_concat_length]
        exact .grown hbody hbegins

/-- A sound body grows into itself. -/
theorem Body.Grows.refl_of_sound {p : Program} (hp : p.Sound) : p.Grows p := by
  refine ⟨Nat.le_refl _, ?_⟩
  intro i hi
  by_cases hlisted : i < p.statements.length
  · exact hp.continues_listed (List.prefix_refl _) hlisted
  · have hat : p.statementAt i = p.current := by
      simp only [Body.statementAt, List.getD_eq_getElem?_getD]
      rw [List.getElem?_eq_none (Nat.le_of_not_lt hlisted)]
      rfl
    rw [hat]
    cases hcurrent : p.current with
    | block d head body =>
        have hunder := hp.under_way
        rw [hcurrent] at hunder
        exact .grown hunder (List.prefix_refl _)
    | _ => exact .same rfl

/-- An intake that has handed out every statement that can be started, in order and once. -/
structure Intake.Sound (i : Intake) : Prop where
  program : i.program.Sound
  ready : i.ready = List.range i.program.issued

theorem Intake.sound_fresh : ({} : Intake).Sound := ⟨Body.sound_fresh, rfl⟩

/-- An intake stays sound with one more character. -/
theorem Intake.Sound.after {i : Intake} (hi : i.Sound) {c : Char} {s : Body.Step}
    (h : i.program.step c = .ok s) : (i.after s).Sound := by
  have hmoves := hi.program.moves h
  refine ⟨hmoves.sound hi.program, ?_⟩
  simp only [Intake.after]
  cases hready : s.ready with
  | false =>
      rw [hready] at hmoves
      rw [hmoves.issued, hi.ready]
      rfl
  | true =>
      rw [hready] at hmoves
      rw [hmoves.issued, hi.ready, ← hmoves.issued_of_ready]
      exact List.range_succ.symm

/-- A character that does not stop the reading is followed by the rest of the text. -/
theorem Intake.feed_cons_of_more {i : Intake} {c : Char} (h : (i.feed [c]).2 = .more)
    (cs : List Char) : i.feed (c :: cs) = (i.feed [c]).1.feed cs := by
  simp only [Intake.feed] at h ⊢
  cases hstep : i.program.step c with
  | error f => simp [hstep] at h
  | ok s =>
      cases hclosed : s.closed with
      | true => simp [hstep, hclosed] at h
      | false => simp [hclosed]

/-- Once reading has stopped, what follows is not read. -/
theorem Intake.feed_cons_of_stopped {i : Intake} {c : Char} (h : (i.feed [c]).2 ≠ .more)
    (cs : List Char) : i.feed (c :: cs) = i.feed [c] := by
  simp only [Intake.feed] at h ⊢
  cases hstep : i.program.step c with
  | error f => rfl
  | ok s =>
      cases hclosed : s.closed with
      | true => simp [hclosed]
      | false => simp [hstep, hclosed] at h

/-- What a text does to an intake: it stays sound, and its plan grows. -/
theorem Intake.Sound.feed {i : Intake} (hi : i.Sound) (cs : List Char) :
    (i.feed cs).1.Sound ∧ i.program.Grows (i.feed cs).1.program := by
  induction cs generalizing i with
  | nil => exact ⟨hi, Body.Grows.refl_of_sound hi.program⟩
  | cons c cs ih =>
      simp only [Intake.feed]
      cases hstep : i.program.step c with
      | error f => exact ⟨hi, Body.Grows.refl_of_sound hi.program⟩
      | ok s =>
          have hafter := hi.after hstep
          have hgrows : i.program.Grows (i.after s).program :=
            (hi.program.moves hstep).grows hi.program
          cases hclosed : s.closed with
          | true => simpa [hclosed] using And.intro hafter hgrows
          | false =>
              obtain ⟨hsound, hgrows'⟩ := ih hafter
              simpa [hclosed] using And.intro hsound (hgrows.trans hgrows')

/-- **One more chunk leaves an intake sound, and its plan grows.** -/
theorem Intake.Sound.take {i : Intake} (hi : i.Sound) (chunk : Chunk) :
    (i.take chunk).1.Sound ∧ i.program.Grows (i.take chunk).1.program := by
  have hsame : i.Sound ∧ i.program.Grows i.program := ⟨hi, Body.Grows.refl_of_sound hi.program⟩
  unfold Intake.take
  split
  · exact hsame
  · exact hsame
  · split
    · exact hsame
    · exact hi.feed _

/-- So do any chunks. -/
theorem Intake.Sound.takeAll {i : Intake} (hi : i.Sound) (chunks : List Chunk) :
    (i.takeAll chunks).1.Sound ∧ i.program.Grows (i.takeAll chunks).1.program := by
  induction chunks generalizing i with
  | nil => exact ⟨hi, Body.Grows.refl_of_sound hi.program⟩
  | cons chunk rest ih =>
      obtain ⟨hsound, hgrows⟩ := hi.take chunk
      simp only [Intake.takeAll]
      cases htake : i.take chunk with
      | mk i' out =>
          obtain ⟨shown, reading⟩ := out
          rw [htake] at hsound hgrows
          cases reading with
          | more =>
              obtain ⟨hsound', hgrows'⟩ := ih hsound
              exact ⟨hsound', hgrows.trans hgrows'⟩
          | closed => exact ⟨hsound, hgrows⟩
          | failed f => exact ⟨hsound, hgrows⟩

end DronePilot.Plan
