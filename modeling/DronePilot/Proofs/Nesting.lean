import DronePilot.Proofs.Growth

/-!
# Blocks and the text between their braces

A block hands every character to its body, one at a time and through every block around it.  What
it comes to in the end is simple: the body of a closed block is the plan that a fresh reader makes
of the text between the braces of the block and of its closing brace, however deep the block lies.

A place in a plan is given by a *path*: a position among its statements, then a position in the body
of the block there, and so on inwards.  While a text is read, the statement under way in the
innermost open block has the path `Body.cursor`.

* `Opens before path d head` — after the text `before`, an opening brace opens a block at this path.
* `Body.spelledBy_step` — what a character does to the blocks of a plan, at its outermost level.
* `closedIn_of_locates` — where a closed block stands in the text, and what its body is.
-/

namespace DronePilot.Plan

/-- The statements of a plan in order, with the one under way at the end. -/
def Body.parts (p : Program) : List Statement :=
  p.statements ++ [p.current]

/-- The plan has this statement at the path. -/
inductive Body.Locates : Program → List Nat → Statement → Prop
  | here {p : Program} {i : Nat} {s : Statement} (h : p.parts[i]? = some s) :
      Body.Locates p [i] s
  | inside {p body : Program} {i : Nat} {path : List Nat} {d : Draft} {head : Head}
      {s : Statement} (hblock : p.parts[i]? = some (.block d head body))
      (h : Body.Locates body path s) : Body.Locates p (i :: path) s

/-- The path to the statement under way inside a block, and inside the blocks in it. -/
def Statement.cursor : Statement → List Nat
  | .block _ _ ⟨statements, current, _, _⟩ => statements.length :: current.cursor
  | _ => []

/-- The path to the innermost statement under way. -/
def Body.cursor (p : Program) : List Nat :=
  p.statements.length :: p.current.cursor

/-- The innermost statement under way. -/
def Statement.innermost : Statement → Statement
  | .block _ _ ⟨_, current, _, _⟩ => current.innermost
  | s => s

/-- After the text `before`, an opening brace opens a block with this head at the path. -/
inductive Opens (before : List Char) (path : List Nat) (d : Draft) (head : Head) : Prop
  | mk {q : Program} (hread : Body.fresh.feed before = (q, .more)) (hcursor : q.cursor = path)
      (hopens : q.current.innermost.step '{' = .ok (Statement.opening d head))

/-- The block at the path is opened and closed in the text, and its body is what a fresh reader
makes of the text between its braces and of the closing one. -/
inductive ClosedIn (text : List Char) (path : List Nat) (d : Draft) (head : Head)
    (body : Program) : Prop
  | mk {before inside after : List Char} (htext : text = before ++ '{' :: (inside ++ '}' :: after))
      (hopens : Opens before path d head)
      (hbody : Body.fresh.feed (inside ++ ['}']) = (body, .closed))

/-- The block at the path is opened in the text and still open at its end. -/
inductive OpenIn (text : List Char) (path : List Nat) (d : Draft) (head : Head)
    (body : Program) : Prop
  | mk {before inside : List Char} (htext : text = before ++ '{' :: inside)
      (hopens : Opens before path d head) (hbody : Body.fresh.feed inside = (body, .more))

theorem ClosedIn.append {text : List Char} {path : List Nat} {d : Draft} {head : Head}
    {body : Program} (h : ClosedIn text path d head body) (more : List Char) :
    ClosedIn (text ++ more) path d head body := by
  obtain ⟨rfl, hopens, hbody⟩ := h
  rename_i before inside after
  refine ⟨(?_ : _ = before ++ '{' :: (inside ++ '}' :: (after ++ more))), hopens, hbody⟩
  simp

/-- A statement that is neither complete nor an open block is not a block. -/
theorem Statement.ne_block {s : Statement} (hcomplete : s.isComplete = false)
    (hopen : s.isOpenBlock = false) (d : Draft) (head : Head) (body : Program) :
    s ≠ .block d head body := by
  rintro rfl
  have hfinished : body.finished = false := hcomplete
  simp [hfinished] at hopen

theorem Statement.cursor_of_not_block {s : Statement} (h : ∀ d head body, s ≠ .block d head body) :
    s.cursor = [] ∧ s.innermost = s := by
  cases s with
  | block d head body => exact absurd rfl (h d head body)
  | _ => exact ⟨rfl, rfl⟩

/-- Only an opening brace opens a block. -/
theorem Statement.brace_of_opening {s : Statement} {c : Char} {d : Draft} {head : Head}
    (hs : s.isOpenBlock = false) (hcomplete : s.isComplete = false)
    (h : s.step c = .ok (Statement.opening d head)) : c = '{' := by
  by_cases hc : c = '{'
  · exact hc
  exfalso
  cases s with
  | block d' head' body => exact Statement.ne_block hcomplete hs d' head' body rfl
  | code d' =>
      simp only [Statement.step, Except.ok.injEq, Statement.stepCode] at h
      repeat' split at h
      all_goals cases h
  | condition d' => simp [Statement.step, hc, Statement.continuing, Statement.opening] at h
  | count d' => simp [Statement.step, hc, Statement.continuing, Statement.opening] at h
  | action d' => simp [Statement.step, Statement.opening] at h

/-- An opening brace that opens a block at the outermost level. -/
theorem Body.step_opening {q : Program} {d : Draft} {head : Head}
    (h : q.current.step '{' = .ok (Statement.opening d head)) :
    q.step '{' = .ok { next := q.enclosing d head Body.fresh, closed := false, ready := true } := by
  rw [Body.step_of_current h, Body.advance_eq]
  simp [Body.taking, Statement.opening, Body.enclosing, Body.closedBy, braceDepth, Body.fresh]

/-- **Opening a block inside a block.**  If the brace after `before` opens a block at the outermost
level, and the one after `inner` opens a block in a plan of its own, then the latter opens a block
inside the former. -/
theorem Opens.inside {before inner : List Char} {i : Nat} {path : List Nat} {d d' : Draft}
    {head head' : Head} (h : Opens before [i] d head) (h' : Opens inner path d' head') :
    Opens (before ++ '{' :: inner) (i :: path) d' head' := by
  obtain ⟨hread, hcursor, hopens⟩ := h
  obtain ⟨hread', rfl, hopens'⟩ := h'
  rename_i q q'
  obtain ⟨rfl, hflat⟩ := List.cons.inj hcursor
  have hcurrent : q.current.innermost = q.current := by
    cases hq : q.current with
    | block _ _ body => simp [hq, Statement.cursor] at hflat
    | _ => rfl
  rw [hcurrent] at hopens
  have hinner : Body.fresh.feed (before ++ '{' :: inner) = (q.enclosing d head q', .more) := by
    rw [Body.feed_append_of_more hread, Body.feed_cons_of_step (Body.step_opening hopens) rfl]
    exact Body.feed_enclosing q d head hread'
  exact ⟨hinner, rfl, hopens'⟩

/-- The blocks of a plan, at its outermost level, are spelled out in the text. -/
structure Body.SpelledBy (p : Program) (text : List Char) : Prop where
  listed : ∀ i d head body, p.statements[i]? = some (.block d head body) →
    ClosedIn text [i] d head body
  under_way : ∀ d head body, p.current = .block d head body →
    OpenIn text [p.statements.length] d head body

theorem Body.spelledBy_fresh : Body.fresh.SpelledBy [] where
  listed := by simp [Body.fresh]
  under_way := by
    intro d head body h
    cases h

/-- What is listed stays spelled out when another statement is listed. -/
theorem Body.SpelledBy.concat {p : Program} {text : List Char} (h : p.SpelledBy text) {c : Char}
    {t : Statement} (ht : ∀ d head body, t = .block d head body →
      ClosedIn (text ++ [c]) [p.statements.length] d head body) :
    ∀ i d head body, (p.statements ++ [t])[i]? = some (.block d head body) →
      ClosedIn (text ++ [c]) [i] d head body := by
  intro i d head body hi
  rcases Nat.lt_trichotomy i p.statements.length with hlt | rfl | hgt
  · rw [List.getElem?_append_left hlt] at hi
    exact (h.listed i d head body hi).append [c]
  · rw [List.getElem?_concat_length] at hi
    exact ht d head body (Option.some.inj hi)
  · rw [List.getElem?_eq_none (by simp; omega)] at hi
    cases hi

/-- **What a character does to the blocks of a plan**, at its outermost level. -/
theorem Body.SpelledBy.step {p : Program} {text : List Char} (h : p.SpelledBy text)
    (hread : Body.fresh.feed text = (p, .more)) (hp : p.Sound) {c : Char} {s : Body.Step}
    (hstep : p.step c = .ok s) : s.next.SpelledBy (text ++ [c]) := by
  obtain ⟨t, ht, rfl⟩ := Body.step_eq_ok hstep
  rw [Body.advance_eq]
  obtain ⟨-, hunder, hopen, hended, -⟩ | ⟨hopen, d, head, rfl⟩ | ⟨-, d, rfl⟩ |
    ⟨d, head, body, u, hcurrent, -, hu, rfl⟩ := Statement.step_cases hp.under_way ht
  · refine ⟨?_, ?_⟩
    · intro i d head body hi
      simp only [Body.taking, hended, Bool.false_eq_true, if_false] at hi
      exact (h.listed i d head body hi).append [c]
    · intro d head body hblock
      simp only [Body.taking, hended, Bool.false_eq_true, if_false] at hblock
      exact absurd hblock (Statement.ne_block hunder hopen d head body)
  · refine ⟨fun i d head body hi => (h.listed i d head body hi).append [c], ?_⟩
    obtain rfl := Statement.brace_of_opening hopen hp.under_way ht
    obtain ⟨hcursor, hinnermost⟩ :=
      Statement.cursor_of_not_block (Statement.ne_block hp.under_way hopen)
    intro d' head' body hblock
    cases hblock
    refine ⟨rfl, ⟨hread, ?_, ?_⟩, rfl⟩
    · rw [Body.cursor, hcursor]
      rfl
    · rw [hinnermost]
      exact ht
  · refine ⟨?_, ?_⟩
    · intro i d' head body hi
      change (if (Statement.action d).isProper then p.statements ++ [.action d]
        else p.statements)[i]? = _ at hi
      split at hi
      · exact h.concat (by simp) i d' head body hi
      · exact (h.listed i d' head body hi).append [c]
    · intro d' head body hblock
      cases hblock
  · obtain ⟨htext, hopens, hbody⟩ := h.under_way d head body hcurrent
    rename_i before inside
    have hnext : Body.fresh.feed (inside ++ [c]) =
        (u.next, if u.closed then .closed else .more) := by
      rw [Body.feed_append_of_more hbody, Body.feed_cons, hu]
      cases hclosed : u.closed <;> simp [hclosed]
    cases hclosed : u.closed with
    | false =>
        refine ⟨?_, ?_⟩
        · intro i d' head' body' hi
          simp only [Body.taking, Bool.false_eq_true, if_false] at hi
          exact (h.listed i d' head' body' hi).append [c]
        · intro d' head' body' hblock
          simp only [Body.taking, Bool.false_eq_true, if_false] at hblock ⊢
          cases hblock
          rw [hclosed] at hnext
          exact ⟨by rw [htext]; simp, hopens, hnext⟩
    | true =>
        refine ⟨?_, ?_⟩
        · intro i d' head' body' hi
          simp only [Body.taking, Statement.isProper, if_true] at hi
          refine h.concat ?_ i d' head' body' hi
          intro d' head' body' hblock
          cases hblock
          obtain rfl : c = '}' := by
            obtain ⟨_, -, rfl⟩ := Body.step_eq_ok hu
            rw [Body.advance_eq] at hclosed
            simp only [Body.closedBy, Bool.and_eq_true, decide_eq_true_eq] at hclosed
            exact hclosed.1
          rw [hclosed] at hnext
          have htext' : text ++ ['}'] = before ++ '{' :: (inside ++ '}' :: []) := by simp [htext]
          exact ⟨htext', hopens, hnext⟩
        · intro d' head' body' hblock
          simp [Body.taking, Statement.fresh] at hblock

/-- The blocks of the plan that a text gives are spelled out in the part of the text that was
read. -/
theorem Body.spelledBy_feed {p : Program} {text : List Char}
    (hread : Body.fresh.feed text = (p, .more)) (hp : p.Sound) (h : p.SpelledBy text)
    (cs : List Char) :
    ∃ read rest, text ++ cs = read ++ rest ∧ (p.feed cs).1.Sound ∧
      (p.feed cs).1.SpelledBy read := by
  induction cs generalizing p text with
  | nil => exact ⟨text, [], rfl, hp, h⟩
  | cons c cs ih =>
      rw [Body.feed_cons]
      cases hstep : p.step c with
      | error f => exact ⟨text, c :: cs, rfl, hp, h⟩
      | ok s =>
          have hnext := h.step hread hp hstep
          have hsound := (hp.moves hstep).sound hp
          cases hclosed : s.closed with
          | true => exact ⟨text ++ [c], cs, by simp, by simpa [hclosed], by simpa [hclosed]⟩
          | false =>
              have hread' : Body.fresh.feed (text ++ [c]) = (s.next, .more) := by
                rw [Body.feed_append_of_more hread, Body.feed_cons_of_step hstep hclosed]
                rfl
              have hrest := ih hread' hsound hnext
              simpa [hclosed] using hrest

/-- What a plan holds at a position is listed, or is the statement under way. -/
theorem Body.parts_cases {p : Program} {i : Nat} {s : Statement} (h : p.parts[i]? = some s) :
    p.statements[i]? = some s ∨ (i = p.statements.length ∧ p.current = s) := by
  rw [Body.parts, List.getElem?_append] at h
  split at h
  · exact Or.inl h
  · obtain ⟨hi, rfl⟩ := List.getElem?_eq_some_iff.1 h
    rw [List.length_singleton] at hi
    exact Or.inr ⟨by omega, by simp⟩

/-- A block inside a block is closed where the outer one says its text stands. -/
theorem Opens.closedIn {before inner rest : List Char} {i : Nat} {path : List Nat}
    {d d' : Draft} {head head' : Head} {body : Program} (h : Opens before [i] d head)
    (h' : ClosedIn inner path d' head' body) :
    ClosedIn (before ++ '{' :: (inner ++ rest)) (i :: path) d' head' body := by
  obtain ⟨rfl, hopens, hbody⟩ := h'
  rename_i before' inside after
  have htext : before ++ '{' :: (before' ++ '{' :: (inside ++ '}' :: after) ++ rest) =
      (before ++ '{' :: before') ++ '{' :: (inside ++ '}' :: (after ++ rest)) := by simp
  exact ⟨htext, h.inside hopens, hbody⟩

/-- **Closed blocks.**  Where a text leads to a plan with a closed block in it, at any depth, the
block is opened and closed in that text, and its body is what a fresh reader makes of the text
between its braces and of the closing one. -/
theorem closedIn_of_locates {p : Program} {path : List Nat} {d : Draft} {head : Head}
    {body : Program} (hpath : p.Locates path (.block d head body)) (hbody : body.finished = true)
    {text : List Char} {r : Reading} (hread : Body.fresh.feed text = (p, r)) :
    ClosedIn text path d head body := by
  generalize hs : Statement.block d head body = s at hpath
  -- The induction is on the path: the body of the outermost block on it is a plan of its own.
  induction hpath generalizing text r with
  | here hpart =>
      subst hs
      obtain ⟨read, rest, htext, hsound, hspelled⟩ :=
        Body.spelledBy_feed rfl Body.sound_fresh Body.spelledBy_fresh text
      rw [hread] at hsound hspelled
      obtain hlisted | ⟨-, hcurrent⟩ := Body.parts_cases hpart
      · rw [← List.nil_append text, htext]
        exact (hspelled.listed _ _ _ _ hlisted).append rest
      · have hopen := hsound.under_way
        rw [hcurrent, Statement.isComplete, hbody] at hopen
        cases hopen
  | inside hpart hpath ih =>
      obtain ⟨read, rest, htext, hsound, hspelled⟩ :=
        Body.spelledBy_feed rfl Body.sound_fresh Body.spelledBy_fresh text
      rw [hread] at hspelled
      rw [← List.nil_append text, htext]
      obtain hlisted | ⟨rfl, hcurrent⟩ := Body.parts_cases hpart
      · obtain ⟨rfl, hopens, hinner⟩ := hspelled.listed _ _ _ _ hlisted
        simpa using hopens.closedIn (ih hinner hs)
      · obtain ⟨rfl, hopens, hinner⟩ := hspelled.under_way _ _ _ hcurrent
        simpa using hopens.closedIn (ih hinner hs)

end DronePilot.Plan
