import DronePilot.Proofs.Bookkeeping

/-!
# What a refused character leaves behind

A plan is a tree, and a character travels down to the innermost statement under way before any of the
levels around it lists a statement or counts a brace.  When the innermost one refuses the character,
the levels are left with what they have stored by then.

A step of the reader says nothing about a tree that refused a character.  So here is a reader that
works in place (`Statement.takeIn`, `Intake.takeIn`): each level stores what the level inside it has
become, whether that one took the character or not, then lists, then counts.

* `Statement.takeIn_of_ok`, `Statement.takeIn_of_error` — reading in place is what the reader does,
  and nothing has been stored when a character is refused.
* `Statement.step_eq_error_iff` — which character is refused.
* `Intake.feed_eq_failed_iff` — where the reading of a text fails, and what it leaves.
* `refusal_leaves_plan` — the same for a plan in pieces, and for the queue of an executor.
-/

namespace DronePilot.Plan

open DronePilot.Decimal

/-! ### Reading in place -/

/-- How a character was taken: whether it ended what took it, and whether a statement became ready
with it. -/
structure Taken where
  ended : Bool
  ready : Bool

/-- Lists the statement under way if it has ended, and begins a fresh one. -/
def Body.enlist (p : Program) (ended : Bool) : Program :=
  if ended then
    { p with
      statements := if p.current.isProper then p.statements ++ [p.current] else p.statements
      current := .fresh }
  else p

/-- Counts a brace.  The flag says that it closed the plan. -/
def Body.countBrace (p : Program) (c : Char) : Bool × Program :=
  if c = '{' then (false, { p with depth := p.depth + 1 })
  else if c = '}' then
    if p.depth = 0 then (true, { p with finished := true })
    else (false, { p with depth := p.depth - 1 })
  else (false, p)

/-- Takes a character in place.  A block stores what the statement under way in its body has become
before it looks at how that statement has fared. -/
def Statement.takeIn : Statement → Char → Except Fault Taken × Statement
  | .code d, c =>
    let t := Statement.stepCode d c
    (.ok { ended := t.ended, ready := t.ready }, t.next)
  | .condition d, c =>
    if c = '{' then
      (.ok { ended := false, ready := true }, .block d .conditional Body.fresh)
    else (.ok { ended := false, ready := false }, .condition (d.extend c))
  | .count d, c =>
    if c = '{' then
      match wholeLiteral d.text.toList with
      | .error f => (.error f, .count d)
      | .ok n => (.ok { ended := false, ready := true }, .block d (.loop n) Body.fresh)
    else (.ok { ended := false, ready := false }, .count (d.extend c))
  | .action d, _ => (.ok { ended := true, ready := false }, .action d)
  | .block d head ⟨statements, current, depth, finished⟩, c =>
    let (outcome, current) := current.takeIn c
    let body : Program := ⟨statements, current, depth, finished⟩
    match outcome with
    | .error f => (.error f, .block d head body)
    | .ok t =>
      let (closed, body) := (body.enlist t.ended).countBrace c
      (.ok { ended := closed, ready := false }, .block d head body)

/-- Takes a character in place, and says whether it closed the plan.  A statement that became ready is
handed out before it is listed. -/
def Intake.takeIn (i : Intake) (c : Char) : Except Fault Bool × Intake :=
  let (outcome, current) := i.program.current.takeIn c
  let program : Program := { i.program with current := current }
  match outcome with
  | .error f => (.error f, { i with program := program })
  | .ok t =>
    let ready := if t.ready then i.ready ++ [program.statements.length] else i.ready
    let (closed, program) := (program.enlist t.ended).countBrace c
    (.ok closed, { program := program, ready := ready })

/-- Reads a text in place. -/
def Intake.feedIn (i : Intake) : List Char → Intake × Reading
  | [] => (i, .more)
  | c :: cs =>
    match i.takeIn c with
    | (.error f, i) => (i, .failed f)
    | (.ok true, i) => (i, .closed)
    | (.ok false, i) => i.feedIn cs

/-! ### One character -/

/-- Listing and then counting a brace is what a character does to a plan whose statement under way has
taken it. -/
theorem Body.countBrace_enlist (p : Program) (s : Statement.Step) (c : Char) :
    (Body.enlist { p with current := s.next } s.ended).countBrace c =
      ((p.advance s c).closed, (p.advance s c).next) := by
  unfold Body.countBrace Body.advance Body.enlist
  by_cases hopen : c = '{'
  · cases s.ended <;> simp [hopen]
  · by_cases hclose : c = '}'
    · by_cases hdepth : p.depth = 0
      · cases s.ended <;> simp [hclose, hdepth]
      · cases s.ended <;> simp [hclose, hdepth]
    · cases s.ended <;> simp [hopen, hclose]

/-- Reading in place is what a step does. -/
theorem Statement.takeIn_of_ok {s : Statement} {c : Char} {t : Statement.Step}
    (h : s.step c = .ok t) : s.takeIn c = (.ok { ended := t.ended, ready := t.ready }, t.next) := by
  fun_induction Statement.step s c generalizing t with
  | case1 d c =>
      cases h
      rfl
  | case2 d =>
      cases h
      rfl
  | case3 d c hc =>
      cases h
      rw [Statement.takeIn, if_neg hc]
      rfl
  | case4 d =>
      obtain ⟨n, hn, ht⟩ := bind_eq_ok_iff.mp h
      cases ht
      rw [Statement.takeIn, if_pos rfl, hn]
      rfl
  | case5 d c hc =>
      cases h
      rw [Statement.takeIn, if_neg hc]
      rfl
  | case6 d c =>
      cases h
      rfl
  | case7 d head statements current depth finished c ih =>
      obtain ⟨inner, hinner, ht⟩ := bind_eq_ok_iff.mp h
      cases ht
      have hbody := Body.countBrace_enlist ⟨statements, current, depth, finished⟩ inner c
      rw [Statement.takeIn, ih hinner]
      simp only [hbody]

/-- A level that refuses a character has stored nothing. -/
theorem Statement.takeIn_of_error {s : Statement} {c : Char} {f : Fault}
    (h : s.step c = .error f) : s.takeIn c = (.error f, s) := by
  fun_induction Statement.step s c with
  | case1 d c => cases h
  | case2 d => cases h
  | case3 d c hc => cases h
  | case4 d =>
      cases hn : wholeLiteral d.text.toList with
      | ok n =>
          rw [hn] at h
          cases h
      | error g =>
          rw [hn] at h
          cases h
          rw [Statement.takeIn, if_pos rfl, hn]
  | case5 d c hc => cases h
  | case6 d c => cases h
  | case7 d head statements current depth finished c ih =>
      cases hinner : current.step c with
      | ok inner =>
          rw [hinner] at h
          cases h
      | error g =>
          rw [hinner] at h
          cases h
          rw [Statement.takeIn, ih hinner]

/-- What is made of a value cannot fail where getting the value did not. -/
theorem bind_pure_eq_error_iff {α β : Type} {x : Except Fault α} {g : α → β} {f : Fault} :
    (x >>= fun a => pure (g a)) = .error f ↔ x = .error f := by
  cases x with
  | ok a => simp [bind, Except.bind, pure, Except.pure]
  | error e => simp [bind, Except.bind]

/-- A text is refused as a number exactly if it cannot be read as one. -/
theorem wholeLiteral_eq_error_iff {text : List Char} {f : Fault} :
    wholeLiteral text = .error f ↔ f = .unreadableNumber ∧ ∀ n, readWhole text ≠ .ok n := by
  unfold wholeLiteral
  cases readWhole text with
  | ok n => simp
  | error e => simp [eq_comm]

/-- A character is refused exactly if it is an opening brace and the innermost statement under way is
a loop count that is no whole number. -/
theorem Statement.step_eq_error_iff {s : Statement} {c : Char} {f : Fault} :
    s.step c = .error f ↔
      c = '{' ∧ f = .unreadableNumber ∧
        ∃ d, s.innermost = .count d ∧ ∀ n, readWhole d.text.toList ≠ .ok n := by
  fun_induction Statement.step s c with
  | case1 d c => simp [Statement.innermost]
  | case2 d => simp [Statement.innermost]
  | case3 d c hc => simp [hc]
  | case4 d =>
      rw [bind_pure_eq_error_iff, wholeLiteral_eq_error_iff]
      simp [Statement.innermost]
  | case5 d c hc => simp [hc]
  | case6 d c => simp [Statement.innermost]
  | case7 d head statements current depth finished c ih =>
      rw [bind_pure_eq_error_iff, ih, Statement.innermost]

/-! ### A text -/

/-- A body refuses a character if the statement that is being read does. -/
theorem Body.step_eq_error_iff {p : Program} {c : Char} {f : Fault} :
    p.step c = .error f ↔ p.current.step c = .error f :=
  bind_pure_eq_error_iff

/-- A character that is read is taken in. -/
theorem Intake.takeIn_of_ok {i : Intake} {c : Char} {s : Body.Step}
    (h : i.program.step c = .ok s) : i.takeIn c = (.ok s.closed, i.after s) := by
  obtain ⟨t, ht, rfl⟩ := Body.step_eq_ok h
  have hplan := Body.countBrace_enlist i.program t c
  have hready : (i.program.advance t c).ready = t.ready := by rw [Body.advance_eq]
  rw [Intake.takeIn, Statement.takeIn_of_ok ht]
  simp only [hplan, Intake.after, hready]

/-- One that is refused leaves the intake as it is. -/
theorem Intake.takeIn_of_error {i : Intake} {c : Char} {f : Fault}
    (h : i.program.step c = .error f) : i.takeIn c = (.error f, i) := by
  rw [Intake.takeIn, Statement.takeIn_of_error (Body.step_eq_error_iff.mp h)]

/-- Reading a text in place is reading it. -/
theorem Intake.feedIn_eq_feed (i : Intake) (text : List Char) : i.feedIn text = i.feed text := by
  induction text generalizing i with
  | nil => rfl
  | cons c text ih =>
      rw [Intake.feedIn, Intake.feed]
      cases hstep : i.program.step c with
      | error f => rw [Intake.takeIn_of_error hstep]
      | ok s =>
          rw [Intake.takeIn_of_ok hstep]
          cases hclosed : s.closed with
          | true => simp [hclosed]
          | false => simpa [hclosed] using ih (i.after s)

/-- The reader is about to refuse an opening brace. -/
def Intake.Refuses (i : Intake) : Prop :=
  ∃ d, i.program.current.innermost = .count d ∧ ∀ n, readWhole d.text.toList ≠ .ok n

/-- A brace that is refused ends the reading. -/
theorem Intake.feed_of_refuses {i : Intake} (h : i.Refuses) (rest : List Char) :
    i.feed ('{' :: rest) = (i, .failed .unreadableNumber) := by
  have hcurrent : i.program.current.step '{' = .error .unreadableNumber :=
    Statement.step_eq_error_iff.mpr ⟨rfl, rfl, h⟩
  rw [Intake.feed, Body.step_eq_error_iff.mpr hcurrent]

/-- **Only a brace is ever refused**, behind a number that cannot be read. -/
theorem Intake.refuses_of_feed_failed {i i' : Intake} {text : List Char} {f : Fault}
    (h : i.feed text = (i', .failed f)) :
    f = .unreadableNumber ∧ ∃ before after, text = before ++ '{' :: after ∧
      i.feed before = (i', .more) ∧ i'.Refuses := by
  induction text generalizing i with
  | nil => cases h
  | cons c text ih =>
      rw [Intake.feed] at h
      cases hstep : i.program.step c with
      | error g =>
          simp only [hstep] at h
          cases h
          obtain ⟨rfl, hfault, hrefuses⟩ :=
            Statement.step_eq_error_iff.mp (Body.step_eq_error_iff.mp hstep)
          exact ⟨hfault, [], text, rfl, rfl, hrefuses⟩
      | ok s =>
          cases hclosed : s.closed with
          | true =>
              simp only [hstep, hclosed, if_true] at h
              cases h
          | false =>
              simp only [hstep, hclosed, Bool.false_eq_true, if_false] at h
              obtain ⟨hfault, before, after, rfl, hread, hrefuses⟩ := ih h
              refine ⟨hfault, c :: before, after, rfl, ?_, hrefuses⟩
              rw [Intake.feed, hstep]
              simpa [hclosed] using hread

/-- The reading of a text fails at an opening brace that is refused, for one reason only, and leaves
what the text before that brace leads to. -/
theorem Intake.feed_eq_failed_iff {i i' : Intake} {text : List Char} {f : Fault} :
    i.feed text = (i', .failed f) ↔
      f = .unreadableNumber ∧ ∃ before after, text = before ++ '{' :: after ∧
        i.feed before = (i', .more) ∧ i'.Refuses := by
  constructor
  · exact Intake.refuses_of_feed_failed
  · intro ⟨hfault, before, after, htext, hread, hrefuses⟩
    rw [htext, Intake.feed_append, hread, hfault]
    exact Intake.feed_of_refuses hrefuses after

/-- Reading texts one after the other is reading them put together. -/
theorem Intake.readAll_texts (i : Intake) (texts : List String) :
    i.readAll (texts.map .text) = i.feed (texts.flatMap String.toList) := by
  rw [Intake.readAll_eq_feed i (by simp), List.flatMap_map]
  rfl

/-! ### The queue of an executor -/

/-- What the reading of chunks by an executor comes to. -/
def Executor.readAll (e : Executor) (chunks : List Chunk) : Executor × Reading :=
  ((e.takeAll chunks).1, (e.takeAll chunks).2.2)

/-- An executor with a plan at some point of its reading, and the tickets of the statements that
became ready from an earlier point on. -/
def Executor.reading (e : Executor) (earlier : Array Assignment) (a : Assignment) (i : Intake) :
    Executor :=
  { e with
    plans := earlier.push { a with intake := i }
    queue := e.queue ++ (i.ready.drop a.intake.ready.length).map fun k =>
      { plan := earlier.size, position := k } }

/-- Changing the last element of an array. -/
theorem modify_push {α : Type} (xs : Array α) (x : α) (f : α → α) :
    (xs.push x).modify xs.size f = xs.push (f x) := by
  apply Array.ext
  · simp
  · intro i h₁ h₂
    simp only [Array.getElem_modify, Array.getElem_push]
    grind

/-- An executor takes a chunk into the plan that it reads. -/
theorem Executor.take_reading {e : Executor} {earlier : Array Assignment} {a : Assignment}
    (hplans : e.plans = earlier.push a) (chunk : Chunk) :
    e.take chunk = (e.reading earlier a (a.intake.take chunk).1, (a.intake.take chunk).2) := by
  simp [Executor.take, hplans, Executor.reading, modify_push]

/-- Statements that are ready stay ready, in their order. -/
theorem Intake.Reaches.ready_extends {i j : Intake} (h : i.Reaches j) : i.ready <+: j.ready := by
  induction h with
  | refl => exact List.prefix_rfl
  | @step j c s _ hstep ih =>
      refine ih.trans ?_
      simp only [Intake.after]
      split
      · exact List.prefix_append _ _
      · exact List.prefix_rfl

/-- What became ready up to a point and from there on is all that became ready. -/
theorem Executor.reading_reading (e : Executor) (earlier : Array Assignment) {a : Assignment}
    {i j : Intake} (hi : a.intake.ready <+: i.ready) (hj : i.ready <+: j.ready) :
    (e.reading earlier a i).reading earlier { a with intake := i } j = e.reading earlier a j := by
  obtain ⟨fresh, hfresh⟩ := hi
  obtain ⟨more, hmore⟩ := hj
  have hready : i.ready.drop a.intake.ready.length ++ j.ready.drop i.ready.length =
      j.ready.drop a.intake.ready.length := by
    rw [← hmore, ← hfresh]
    simp
  simp only [Executor.reading, List.append_assoc, ← List.map_append, hready]

/-- An executor reads all chunks into one plan. -/
theorem Executor.readAll_reading {e : Executor} {earlier : Array Assignment} {a : Assignment}
    (hplans : e.plans = earlier.push a) (chunks : List Chunk) :
    e.readAll chunks =
      (e.reading earlier a (a.intake.readAll chunks).1, (a.intake.readAll chunks).2) := by
  induction chunks generalizing e a with
  | nil =>
      simp [Executor.readAll, Executor.takeAll, Executor.reading, Intake.readAll, Intake.takeAll,
        ← hplans]
  | cons chunk rest ih =>
      simp only [Executor.readAll, Executor.takeAll, Executor.take_reading hplans, Intake.readAll,
        Intake.takeAll]
      have htake := a.intake.reaches_take chunk
      cases hout : a.intake.take chunk with
      | mk i out =>
          obtain ⟨shown, reading⟩ := out
          rw [hout] at htake
          cases reading with
          | closed => rfl
          | failed f => rfl
          | more =>
              have hplans' : (e.reading earlier a i).plans = earlier.push { a with intake := i } :=
                rfl
              have hrest := ih hplans'
              rw [Executor.reading_reading e earlier htake.ready_extends
                (i.reaches_readAll rest).ready_extends] at hrest
              exact hrest

/-- A text that an executor cannot read to its end leaves it as the text before the refused brace
does. -/
theorem Executor.readAll_eq_failed_iff {e e' : Executor} {earlier : Array Assignment} {a : Assignment}
    (hplans : e.plans = earlier.push a) {texts : List String} {f : Fault} :
    e.readAll (texts.map .text) = (e', .failed f) ↔
      f = .unreadableNumber ∧ ∃ before after, texts.flatMap String.toList = before ++ '{' :: after ∧
        e.readAll [.text (String.ofList before)] = (e', .more) ∧
        ∃ a', e'.plans.back? = some a' ∧ a'.intake.Refuses := by
  have htexts := Intake.readAll_texts a.intake texts
  constructor
  · intro h
    rw [Executor.readAll_reading hplans] at h
    obtain ⟨hexecutor, hfailed⟩ := Prod.mk.inj h
    have hread : a.intake.feed (texts.flatMap String.toList) =
        ((a.intake.readAll (texts.map .text)).1, .failed f) := by
      rw [← htexts, ← hfailed]
    obtain ⟨hfault, before, after, htext, hbefore, hrefuses⟩ := Intake.feed_eq_failed_iff.mp hread
    refine ⟨hfault, before, after, htext, ?_, ?_⟩
    · rw [Executor.readAll_reading hplans, Intake.readAll_text, hbefore, hexecutor]
    · rw [← hexecutor]
      exact ⟨_, Array.back?_push, hrefuses⟩
  · intro ⟨hfault, before, after, htext, hbefore, a', hnewest, hrefuses⟩
    rw [Executor.readAll_reading hplans, Intake.readAll_text] at hbefore
    obtain ⟨hexecutor, hmore⟩ := Prod.mk.inj hbefore
    have hnewest' : { a with intake := (a.intake.feed before).1 } = a' := by
      rw [← hexecutor] at hnewest
      simpa [Executor.reading] using hnewest
    rw [← hnewest'] at hrefuses
    have hread : a.intake.feed (texts.flatMap String.toList) =
        ((a.intake.feed before).1, .failed f) :=
      Intake.feed_eq_failed_iff.mpr
        ⟨hfault, before, after, htext, Prod.ext rfl hmore, hrefuses⟩
    rw [Executor.readAll_reading hplans, htexts, hread, hexecutor]

/-- **A refused character changes nothing.**  A plan that arrives as texts is read as if it were read
in place.  The reading fails for one reason only, exactly if an opening brace comes while the
innermost statement under way is a loop count that is no whole number.  It then leaves the plan, at
every level, and the positions handed out as they were after the text before that brace, and so does
an executor with its queue. -/
theorem refusal_leaves_plan (i : Intake) (texts : List String) :
    let chunks := texts.map Chunk.text
    let text := texts.flatMap String.toList
    i.readAll chunks = i.feedIn text ∧
    (∀ i' f, i.readAll chunks = (i', .failed f) ↔
      f = .unreadableNumber ∧ ∃ before after, text = before ++ '{' :: after ∧
        i.readAll [.text (String.ofList before)] = (i', .more) ∧ i'.Refuses) ∧
    (∀ (e : Executor) (earlier : Array Assignment) (bindings : Variables) (e' : Executor) (f : Fault),
      let start := { e with plans := earlier.push { intake := i, bindings := bindings } }
      start.readAll chunks = (e', .failed f) ↔
        f = .unreadableNumber ∧ ∃ before after, text = before ++ '{' :: after ∧
          start.readAll [.text (String.ofList before)] = (e', .more) ∧
          ∃ a, e'.plans.back? = some a ∧ a.intake.Refuses) := by
  intro chunks text
  have htexts : i.readAll chunks = i.feed text := Intake.readAll_texts i texts
  refine ⟨?_, ?_, ?_⟩
  · rw [htexts, Intake.feedIn_eq_feed]
  · intro i' f
    simp only [htexts, Intake.readAll_text]
    exact Intake.feed_eq_failed_iff
  · intro e earlier bindings e' f start
    exact Executor.readAll_eq_failed_iff rfl

-- The brace of the inner loop is refused, two levels down.
example :
    ∃ i, ({} : Intake).readAll [.text "?a\x7b1", .text "x\x7b2"] = (i, .failed .unreadableNumber) ∧
      ({} : Intake).readAll [.text "?a\x7b1x"] = (i, .more) :=
  ⟨_, rfl, rfl⟩

end DronePilot.Plan
