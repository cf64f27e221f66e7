import DronePilot.Proofs.Growth

/-!
# Plans read to their end

A statement is listed when it has been read to its end, and so is everything inside it: the blocks
in its body are closed, and so are the blocks in theirs.  Only the statement under way is not, and
that goes for the statement under way in each open block as well.

* `Statement.UnderWay.step` — what a character makes of a statement under way is under way still,
  or whole if it ended.
* `Body.WellRead.feed` — hence every text leaves a plan in which all that is listed is whole.
-/

namespace DronePilot.Plan

/-- A statement that has been read to its end, with all that is in it. -/
inductive Statement.Whole : Statement → Prop
  | action (d : Draft) : Statement.Whole (.action d)
  | block {d : Draft} {head : Head} {body : Program}
      (hlisted : ∀ s ∈ body.statements, Statement.Whole s) (hfinished : body.finished = true) :
      Statement.Whole (.block d head body)

/-- A statement that is being read; in an open block, all that is listed is whole. -/
inductive Statement.UnderWay : Statement → Prop
  | code (d : Draft) : Statement.UnderWay (.code d)
  | condition (d : Draft) : Statement.UnderWay (.condition d)
  | count (d : Draft) : Statement.UnderWay (.count d)
  | block {d : Draft} {head : Head} {body : Program}
      (hlisted : ∀ s ∈ body.statements, s.Whole) (hcurrent : Statement.UnderWay body.current)
      (hopen : body.finished = false) : Statement.UnderWay (.block d head body)

/-- A plan in which all that is listed is whole, at every level. -/
structure Body.WellRead (p : Program) : Prop where
  listed : ∀ s ∈ p.statements, s.Whole
  current : p.current.UnderWay

/-- What a character made of a statement under way. -/
def Statement.Step.WellMade (t : Statement.Step) : Prop :=
  if t.ended then t.next.Whole else t.next.UnderWay

theorem Body.wellRead_fresh : Body.fresh.WellRead where
  listed := by simp [Body.fresh]
  current := .code _

theorem Statement.underWay_of_not_block {s : Statement} (hcomplete : s.isComplete = false)
    (hblock : s.isOpenBlock = false) : s.UnderWay := by
  cases s with
  | code d => exact .code d
  | condition d => exact .condition d
  | count d => exact .count d
  | action d => cases hcomplete
  | block d head body =>
      have hfinished : body.finished = false := hcomplete
      simp [hfinished] at hblock

/-- A plan whose statement under way has taken a character. -/
theorem Body.WellRead.advance {p : Program} (h : p.WellRead) {t : Statement.Step}
    (ht : t.WellMade) (c : Char) : (p.advance t c).next.WellRead := by
  rw [Body.advance_eq]
  unfold Statement.Step.WellMade at ht
  cases hended : t.ended with
  | false =>
      rw [hended] at ht
      refine ⟨?_, ?_⟩
      · simpa [Body.taking, hended] using h.listed
      · simpa [Body.taking, hended] using ht
  | true =>
      rw [hended] at ht
      refine ⟨?_, ?_⟩
      · intro s hs
        simp only [Body.taking, hended, if_true] at hs
        split at hs
        · rcases List.mem_append.1 hs with hs | hs
          · exact h.listed s hs
          · rw [List.mem_singleton.1 hs]
            exact ht
        · exact h.listed s hs
      · have hfresh : Statement.fresh.UnderWay := .code {}
        simpa [Body.taking, hended] using hfresh

/-- **What a character makes of a statement under way.**  The induction goes inwards, through the
open blocks to the statement that takes the character. -/
theorem Statement.UnderWay.step {s : Statement} (h : s.UnderWay) {c : Char} {t : Statement.Step}
    (hstep : s.step c = .ok t) : t.WellMade := by
  induction h generalizing t with
  | @block d head body hlisted hcurrent hopen ih =>
      obtain ⟨hblock, -⟩ | ⟨hblock, -⟩ | ⟨hblock, -⟩ | ⟨_, _, _, u, heq, -, hu, rfl⟩ :=
        Statement.step_cases (s := .block d head body) hopen hstep
      · simp [hopen] at hblock
      · simp [hopen] at hblock
      · simp [hopen] at hblock
      · cases heq
        obtain ⟨t, ht, rfl⟩ := Body.step_eq_ok hu
        have hbody : body.WellRead := ⟨hlisted, hcurrent⟩
        have hnext := hbody.advance (ih ht) c
        have hfinished := Body.finished_of_step hu
        rw [hopen, Bool.false_or] at hfinished
        unfold Statement.Step.WellMade
        cases hclosed : (body.advance t c).closed with
        | true =>
            rw [hclosed] at hfinished
            simpa [hclosed] using Statement.Whole.block hnext.listed hfinished
        | false =>
            rw [hclosed] at hfinished
            simpa [hclosed] using Statement.UnderWay.block hnext.listed hnext.current hfinished
  | _ =>
      obtain ⟨-, hcomplete, hblock, hended, -⟩ | ⟨-, d, head, rfl⟩ | ⟨-, d, rfl⟩ |
        ⟨_, _, _, _, heq, -⟩ := Statement.step_cases rfl hstep
      · simpa [Statement.Step.WellMade, hended] using
          Statement.underWay_of_not_block hcomplete hblock
      · simpa [Statement.Step.WellMade, Statement.opening] using
          Statement.UnderWay.block (by simp [Body.fresh]) (.code {}) rfl
      · simpa [Statement.Step.WellMade, Statement.acting] using Statement.Whole.action d
      · cases heq

theorem Body.WellRead.step {p : Program} (h : p.WellRead) {c : Char} {s : Body.Step}
    (hstep : p.step c = .ok s) : s.next.WellRead := by
  obtain ⟨t, ht, rfl⟩ := Body.step_eq_ok hstep
  exact h.advance (h.current.step ht) c

/-- **Every text leaves a plan in which all that is listed is whole**, also one that stops the
reading midway. -/
theorem Body.WellRead.feed {p : Program} (h : p.WellRead) (text : List Char) :
    (p.feed text).1.WellRead := by
  induction text generalizing p with
  | nil => exact h
  | cons c cs ih =>
      rw [Body.feed_cons]
      cases hstep : p.step c with
      | error f => exact h
      | ok s =>
          cases hclosed : s.closed with
          | true => simpa [hclosed] using h.step hstep
          | false => simpa [hclosed] using ih (h.step hstep)

end DronePilot.Plan
