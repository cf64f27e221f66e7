import DronePilot.Plan.Reader

/-!
# How a plan is read

The reader hands every character inwards, to the statement under way in the innermost open block,
and every level around it then counts braces for itself.  This file says what that amounts to for a
plan as a whole.

* `feed_cons`, `feed_append_of_more` — reading goes character by character, so a text can be read
  in parts.
* `advance_eq` — a character is taken by the statement under way, and apart from that it only
  counts as a brace.
* `step_enclosing`, `feed_enclosing` — a plan around an open block follows the body of that block,
  one brace deeper, for as long as the body is not closed.
* `step_enclosing_closed` — the brace that closes the body completes the block around it.
-/

namespace DronePilot.Plan

/-- The plan that an intake reads does not depend on which statements became ready before. -/
theorem Intake.feed_program (i : Intake) (cs : List Char) :
    ((i.feed cs).1.program, (i.feed cs).2) = i.program.feed cs := by
  have hready : ∀ (cs : List Char) (p : Program) (r r' : List Nat),
      (Intake.feed ⟨p, r⟩ cs).1.program = (Intake.feed ⟨p, r'⟩ cs).1.program ∧
        (Intake.feed ⟨p, r⟩ cs).2 = (Intake.feed ⟨p, r'⟩ cs).2 := by
    intro cs
    induction cs with
    | nil =>
        intro p r r'
        exact ⟨rfl, rfl⟩
    | cons c cs ih =>
        intro p r r'
        simp only [Intake.feed]
        cases p.step c with
        | error f => exact ⟨rfl, rfl⟩
        | ok s =>
            cases hclosed : s.closed
            · simpa [Intake.after, hclosed] using ih s.next _ _
            · simp [Intake.after, hclosed]
  obtain ⟨hprogram, hreading⟩ := hready cs i.program i.ready []
  simp only [Body.feed]
  exact Prod.ext hprogram hreading

@[simp]
theorem Body.feed_nil (p : Program) : p.feed [] = (p, .more) := rfl

/-- A text is read by reading its first character and then, if that one did not stop the reading,
the rest. -/
theorem Body.feed_cons (p : Program) (c : Char) (cs : List Char) :
    p.feed (c :: cs) =
      match p.step c with
      | .error f => (p, .failed f)
      | .ok s => if s.closed then (s.next, .closed) else s.next.feed cs := by
  have h := Intake.feed_program { program := p } (c :: cs)
  rw [← h]
  simp only [Intake.feed]
  cases p.step c with
  | error f => rfl
  | ok s =>
      cases hclosed : s.closed
      · simp only [hclosed, Bool.false_eq_true, if_false]
        exact Intake.feed_program (Intake.after { program := p } s) cs
      · simp [hclosed, Intake.after]

/-- A character that does not stop the reading is followed by the rest of the text. -/
theorem Body.feed_cons_of_step {p : Program} {c : Char} {s : Body.Step} (hs : p.step c = .ok s)
    (hopen : s.closed = false) (cs : List Char) : p.feed (c :: cs) = s.next.feed cs := by
  rw [Body.feed_cons, hs]
  simp [hopen]

/-- A text can be read in two parts. -/
theorem Body.feed_append_of_more {p q : Program} {s : List Char} (h : p.feed s = (q, .more))
    (t : List Char) : p.feed (s ++ t) = q.feed t := by
  induction s generalizing p with
  | nil =>
      have hq : p = q := congrArg Prod.fst h
      rw [List.nil_append, hq]
  | cons c cs ih =>
      rw [Body.feed_cons] at h
      rw [List.cons_append, Body.feed_cons]
      cases hstep : p.step c with
      | error f =>
          rw [hstep] at h
          cases h
      | ok s =>
          simp only [hstep] at h
          cases hclosed : s.closed
          · simp only [hclosed, Bool.false_eq_true, if_false] at h ⊢
            exact ih h
          · simp only [hclosed, if_true] at h
            cases h

/-- The braces open after a character, whatever it means to the statement under way. -/
def braceDepth (depth : Nat) (c : Char) : Nat :=
  if c = '{' then depth + 1 else if c = '}' then depth - 1 else depth

/-- A plan after its statement under way has taken a character, the braces apart. -/
def Body.taking (p : Program) (s : Statement.Step) : Program :=
  if s.ended then
    { p with
      statements := if s.next.isProper then p.statements ++ [s.next] else p.statements
      current := .fresh }
  else { p with current := s.next }

theorem Body.taking_of_continuing (p : Program) {s : Statement.Step} (h : s.ended = false) :
    p.taking s = { p with current := s.next } := by
  simp [Body.taking, h]

/-- A character closes a plan exactly if it is a closing brace and no brace is open. -/
def Body.closedBy (p : Program) (c : Char) : Bool :=
  decide (c = '}') && decide (p.depth = 0)

/-- **What a character does to a plan.**  The statement under way takes it, and apart from that
braces are counted; the plan is finished by a closing brace without an opening one. -/
theorem Body.advance_eq (p : Program) (s : Statement.Step) (c : Char) :
    p.advance s c =
      { next := { p.taking s with
          depth := braceDepth p.depth c
          finished := p.finished || p.closedBy c }
        closed := p.closedBy c
        ready := s.ready } := by
  unfold Body.advance Body.closedBy braceDepth Body.taking
  by_cases hopen : c = '{'
  · subst hopen
    cases s.ended <;> simp
  · by_cases hclose : c = '}'
    · subst hclose
      by_cases hdepth : p.depth = 0 <;> cases s.ended <;> simp [hdepth]
    · cases s.ended <;> simp [hopen, hclose]

/-- Inside a block that a character does not close, the braces around it shift the count. -/
theorem braceDepth_add {p : Program} {c : Char} (h : p.closedBy c = false) (k : Nat) :
    braceDepth (k + p.depth) c = k + braceDepth p.depth c := by
  simp only [Body.closedBy, Bool.and_eq_false_iff, decide_eq_false_iff_not] at h
  unfold braceDepth
  by_cases hopen : c = '{'
  · simp only [hopen, if_true]
    omega
  · by_cases hclose : c = '}'
    · have hdepth : p.depth ≠ 0 := h.resolve_left (not_not_intro hclose)
      rw [if_neg hopen, if_pos hclose, if_neg hopen, if_pos hclose]
      omega
    · simp only [hopen, hclose, if_false]

/-- A step of a plan is a step of the statement under way, with the braces counted afterwards. -/
theorem Body.step_eq_ok {p : Program} {c : Char} {s : Body.Step} (h : p.step c = .ok s) :
    ∃ t, p.current.step c = .ok t ∧ s = p.advance t c := by
  unfold Body.step at h
  cases ht : p.current.step c with
  | error f =>
      rw [ht] at h
      cases h
  | ok t =>
      rw [ht] at h
      cases h
      exact ⟨t, rfl, rfl⟩

theorem Body.step_of_current {p : Program} {c : Char} {t : Statement.Step}
    (h : p.current.step c = .ok t) : p.step c = .ok (p.advance t c) := by
  unfold Body.step
  rw [h]
  rfl

/-- A character that is no brace moves a plan by what it does to the statement under way. -/
theorem Body.step_unbraced {p : Program} {c : Char} {t : Statement.Step}
    (h : p.current.step c = .ok t) (hopen : c ≠ '{') (hclose : c ≠ '}') :
    p.step c = .ok { next := p.taking t, closed := false, ready := t.ready } := by
  rw [Body.step_of_current h, Body.advance_eq]
  simp only [Body.closedBy, hclose, braceDepth, hopen, decide_false, Bool.false_and, if_false,
    Bool.or_false]
  unfold Body.taking
  cases t.ended <;> rfl

/-- A block hands a character to its body. -/
theorem Statement.step_block {d : Draft} {head : Head} {body : Program} {c : Char} {s : Body.Step}
    (h : body.step c = .ok s) :
    (Statement.block d head body).step c =
      .ok { next := .block d head s.next, ended := s.closed, ready := false } := by
  obtain ⟨t, ht, rfl⟩ := Body.step_eq_ok h
  cases body with
  | mk statements current depth finished =>
      have ht' : current.step c = .ok t := ht
      simp only [Statement.step, ht']
      rfl

/-- The plan `p` with a block opened in it: the statement under way is the block, and the braces
open in its body count for the plan too. -/
def Body.enclosing (p : Program) (d : Draft) (head : Head) (body : Program) : Program :=
  { p with current := .block d head body, depth := p.depth + 1 + body.depth }

/-- The plan around an open block follows the body of the block. -/
theorem Body.step_enclosing (p : Program) {body : Program} (d : Draft) (head : Head) {c : Char}
    {s : Body.Step} (h : body.step c = .ok s) (hopen : s.closed = false) :
    (p.enclosing d head body).step c =
      .ok { next := p.enclosing d head s.next, closed := false, ready := false } := by
  have hblock : (p.enclosing d head body).current.step c = _ := Statement.step_block h
  obtain ⟨t, -, rfl⟩ := Body.step_eq_ok h
  have hclosed : body.closedBy c = false := by
    rw [Body.advance_eq] at hopen
    exact hopen
  have hdeep : (p.enclosing d head body).closedBy c = false := by
    simp [Body.closedBy, Body.enclosing]
  rw [Body.step_of_current hblock, Body.advance_eq, hdeep,
    Body.taking_of_continuing _ hopen]
  simp only [Body.enclosing, Bool.or_false]
  rw [braceDepth_add hclosed, Body.advance_eq]

/-- The plan around an open block follows the body of the block through a whole text. -/
theorem Body.feed_enclosing (p : Program) {body body' : Program} (d : Draft) (head : Head)
    {cs : List Char} (h : body.feed cs = (body', .more)) :
    (p.enclosing d head body).feed cs = (p.enclosing d head body', .more) := by
  induction cs generalizing body with
  | nil =>
      have hbody : body = body' := congrArg Prod.fst h
      rw [hbody, Body.feed_nil]
  | cons c cs ih =>
      rw [Body.feed_cons] at h
      cases hstep : body.step c with
      | error f =>
          rw [hstep] at h
          cases h
      | ok s =>
          simp only [hstep] at h
          cases hclosed : s.closed
          · simp only [hclosed, Bool.false_eq_true, if_false] at h
            rw [Body.feed_cons_of_step (Body.step_enclosing p d head hstep hclosed) rfl]
            exact ih h
          · simp only [hclosed, if_true] at h
            cases h

/-- The closing brace of a body completes the block around it, and the plan goes on with a fresh
statement. -/
theorem Body.step_enclosing_closed (p : Program) {body : Program} (d : Draft) (head : Head)
    {s : Body.Step} (h : body.step '}' = .ok s) (hclosed : s.closed = true) :
    (p.enclosing d head body).step '}' =
      .ok { next :=
              { p with
                statements := p.statements ++ [.block d head s.next]
                current := .fresh }
            closed := false
            ready := false } := by
  have hblock : (p.enclosing d head body).current.step '}' = _ := Statement.step_block h
  obtain ⟨t, -, rfl⟩ := Body.step_eq_ok h
  have hzero : body.depth = 0 := by
    rw [Body.advance_eq] at hclosed
    simpa [Body.closedBy] using hclosed
  have hdeep : (p.enclosing d head body).closedBy '}' = false := by
    simp [Body.closedBy, Body.enclosing]
  rw [Body.step_of_current hblock, Body.advance_eq, hdeep]
  simp [Body.taking, hclosed, Body.enclosing, Statement.isProper, braceDepth, hzero]

end DronePilot.Plan
