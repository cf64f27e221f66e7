import DronePilot.Proofs.Quotation
import DronePilot.Proofs.Return
import Mathlib.Data.List.Chain
import Mathlib.Data.List.TakeWhile

/-!
# Returning a value

A plan returns a value by an arrow and the text of the value: a whole number, a decimal, a quoted
text, a truth value or a variable.  The reader decides about a digit when it sees it: without a
letter or a low line before it in the statement, it starts a loop count.  So the arrow before a
number does not protect the number, and neither does a quotation mark.

* `ReadsAlone` — in every place of a plan, the text and a mark are read as one statement, and what
  follows is read as behind that statement.
* `Swallowed` — the return becomes a loop count, and so does everything behind it up to a brace.
* `ReturnedAlone` — the return is read alone, and its statement gives the value.

`returned_alone_iff` says which values can be returned: exactly those whose text has no digit before
its first letter or low line.
-/

namespace DronePilot.Text

/-! ### Letters and digit signs -/

/-- One pass over two sorted tables that looks for an overlap: of the second table, what ends before
a range of the first one is left behind. -/
def Ranges.sweep : Ranges → Ranges → Bool
  | [], _ => true
  | r :: rest, others =>
    let ahead := others.dropWhile fun s => s.2 < r.1
    ahead.head?.all (r.2 < ·.1) && sweep rest ahead

/-- The ranges begin in ascending order. -/
def Ranges.Ascending (ranges : Ranges) : Prop :=
  ranges.IsChain fun r s => r.1 ≤ s.1

instance (ranges : Ranges) : Decidable ranges.Ascending :=
  inferInstanceAs (Decidable (ranges.IsChain fun r s => r.1 ≤ s.1))

/-- The first range of ascending ranges begins lowest. -/
theorem Ranges.Ascending.first_le {r s : Nat × Nat} {ranges : Ranges}
    (h : Ranges.Ascending (r :: ranges)) (hs : s ∈ ranges) : r.1 ≤ s.1 := by
  have htrans : IsTrans (Nat × Nat) fun r s => r.1 ≤ s.1 := ⟨fun _ _ _ => Nat.le_trans⟩
  exact List.rel_of_pairwise_cons (List.isChain_iff_pairwise.1 h) hs

/-- A pass without an overlap means that the tables have none. -/
theorem Ranges.apart_of_sweep {table others : Ranges} (htable : table.Ascending)
    (hothers : others.Ascending) (h : table.sweep others = true) {r s : Nat × Nat}
    (hr : r ∈ table) (hs : s ∈ others) : s.2 < r.1 ∨ r.2 < s.1 := by
  induction table generalizing others with
  | nil => cases hr
  | cons first rest ih =>
      rw [Ranges.sweep, Bool.and_eq_true] at h
      obtain ⟨hhead, hsweep⟩ := h
      have hfirst : first.1 ≤ r.1 := by
        rcases List.mem_cons.1 hr with heq | hrest
        · rw [heq]
        · exact htable.first_le hrest
      rw [← List.takeWhile_append_dropWhile (p := fun s => decide (s.2 < first.1)) (l := others),
        List.mem_append] at hs
      rcases hs with hbehind | hahead
      · have hend : s.2 < first.1 := by simpa using List.mem_takeWhile_imp hbehind
        omega
      · have hascending : Ranges.Ascending (others.dropWhile fun s => decide (s.2 < first.1)) :=
          hothers.suffix (List.dropWhile_suffix _)
        rcases List.mem_cons.1 hr with heq | hrest
        · right
          rw [heq]
          cases hdrop : others.dropWhile fun s => decide (s.2 < first.1) with
          | nil =>
              rw [hdrop] at hahead
              cases hahead
          | cons next more =>
              rw [hdrop] at hahead hhead hascending
              have hnext : first.2 < next.1 := by simpa using hhead
              rcases List.mem_cons.1 hahead with heq' | hmore
              · rw [heq']
                exact hnext
              · exact Nat.lt_of_lt_of_le hnext (hascending.first_le hmore)
        · exact ih htable.tail hascending hsweep hrest hahead

theorem letters_ascending : foreignLetters.Ascending := by decide +kernel

end DronePilot.Text

namespace DronePilot.Plan

open DronePilot.Text DronePilot.Decimal

/-! ### The texts of values -/

/-- Decimal digits. -/
structure DigitText where
  chars : List Char
  nonempty : chars ≠ [] := by decide
  digits : ∀ c ∈ chars, c.isDigit = true := by simp

/-- Decimal digits with a point among them or at either end. -/
structure DecimalText where
  whole : List Char
  places : List Char
  nonempty : whole ++ places ≠ [] := by decide
  digits : ∀ c ∈ whole ++ places, c.isDigit = true := by simp

/-- Letters and digits between two quotation marks of the same kind. -/
structure QuotedText where
  mark : Char
  word : List Char
  quotes : isQuoteMark mark = true := by decide
  plain : ∀ c ∈ word, (isLetter c || isDigitSign c) = true

/-- The text of a value. -/
inductive ValueText where
  | whole (n : DigitText)
  | decimal (x : DecimalText)
  | quoted (q : QuotedText)
  | truth (b : Bool)
  /-- A variable: a low line and a number. -/
  | variable (n : DigitText)

namespace ValueText

/-- A value as it is written. -/
def chars : ValueText → List Char
  | whole n => n.chars
  | decimal x => x.whole ++ '.' :: x.places
  | quoted q => q.mark :: (q.word ++ [q.mark])
  | truth b => (if b then "True" else "False").toList
  | .variable n => '_' :: n.chars

/-- The return of a value as it is written, without its mark. -/
def returnText (v : ValueText) : List Char :=
  '-' :: '>' :: v.chars

/-- The return of a value as an action of its own. -/
def statement (v : ValueText) : Statement :=
  .action (.ofChars v.returnText)

/-- A digit stands before every letter and low line. -/
def opensWithDigit : ValueText → Bool
  | whole _ | decimal _ => true
  | quoted q => q.word.head?.any isDigitSign
  | .truth _ | .variable _ => false

/-- The value that a text stands for; a variable has to be defined. -/
def valueIn (bindings : Variables) : ValueText → Option Value
  | whole n => some (.int (Nat.ofDigitChars 10 n.chars 0))
  | decimal x => (readReal (x.whole ++ '.' :: x.places)).map .float
  | quoted q => some (.text (String.ofList q.word))
  | truth b => some (.bool b)
  | .variable n => bindings.find? (String.ofList ('_' :: n.chars))

end ValueText

/-! ### Places in a plan -/

/-- An open block around a place: the plan it stands in, and its head. -/
structure Frame where
  around : Program
  draft : Draft
  head : Head

/-- The plan in which a body is the innermost one, with the open blocks around it from the outside
inwards. -/
def Body.within (q : Program) : List Frame → Program
  | [] => q
  | f :: frames => { f.around with current := .block f.draft f.head (q.within frames) }

/-- The body with one more statement. -/
def Body.adding (q : Program) (s : Statement) : Program :=
  { q with statements := q.statements ++ [s], current := .fresh }

/-- The text and a mark are read as the statement, at the top of a plan or inside any blocks, and
behind any statements.  What follows is read as behind that statement. -/
def ReadsAlone (text : List Char) (s : Statement) : Prop :=
  ∀ (q : Program) (frames : List Frame) (after : List Char), q.current = .fresh →
    (q.within frames).feed (text ++ ';' :: after) = ((q.adding s).within frames).feed after

/-- The return of a value is a statement of its own, which returns with the value. -/
structure ReturnedAlone (v : ValueText) : Prop where
  reads : ReadsAlone v.returnText v.statement
  gives : ∀ {σ : Type} (call : Call → Run σ Result) (m : Mark) (s : Scope σ) (value : Value),
    v.valueIn s.bindings = some value →
      (v.statement.run call m).exec s =
        (.ok (.returning value, .mk true m.body), { s with returned := true })

/-- The return of a value, its mark and all that follows up to a brace are a loop count under way.
An opening brace then stops the reading. -/
structure Swallowed (v : ValueText) : Prop where
  counts : ∀ (q : Program) (frames : List Frame) (rest : List Char), q.current = .fresh →
    (∀ c ∈ rest, c ≠ '{' ∧ c ≠ '}') →
      (q.within frames).feed (v.returnText ++ ';' :: rest) =
        (Body.within
          { q with current := .count { text := String.ofList (v.returnText ++ ';' :: rest) } }
          frames, .more)
  fails : ∀ (q : Program) (frames : List Frame) (rest after : List Char), q.current = .fresh →
    (∀ c ∈ rest, c ≠ '{' ∧ c ≠ '}') →
      ((q.within frames).feed (v.returnText ++ ';' :: (rest ++ '{' :: after))).2 =
        .failed .unreadableNumber

/-- A plan around an open block follows the body of the block through a text without braces. -/
theorem Body.feed_block {q q' : Program} {cs : List Char} (h : q.feed cs = (q', .more))
    (hunbraced : ∀ c ∈ cs, c ≠ '{' ∧ c ≠ '}') (f : Frame) :
    Body.feed { f.around with current := .block f.draft f.head q } cs =
      ({ f.around with current := .block f.draft f.head q' }, .more) := by
  induction cs generalizing q with
  | nil =>
      have hq : q = q' := congrArg Prod.fst h
      rw [hq, Body.feed_nil]
  | cons c cs ih =>
      obtain ⟨hopen, hclose⟩ := hunbraced c (by simp)
      cases hstep : q.step c with
      | error f =>
          rw [Body.feed_cons, hstep] at h
          cases h
      | ok s =>
          obtain ⟨t, ht, hs⟩ := Body.step_eq_ok hstep
          have hclosed : s.closed = false := by
            rw [hs, Body.advance_eq]
            simp [Body.closedBy, hclose]
          rw [Body.feed_cons_of_step hstep hclosed] at h
          have hblock : (Statement.block f.draft f.head q).step c = _ := Statement.step_block hstep
          rw [hclosed] at hblock
          rw [Body.feed_cons_of_step (Body.step_unbraced hblock hopen hclose) rfl]
          exact ih h (fun x hx => hunbraced x (by simp [hx]))

/-- What a body makes of a text without braces does not depend on the blocks around it. -/
theorem Body.feed_within {q q' : Program} {cs : List Char} (h : q.feed cs = (q', .more))
    (hunbraced : ∀ c ∈ cs, c ≠ '{' ∧ c ≠ '}') (frames : List Frame) :
    (q.within frames).feed cs = (q'.within frames, .more) := by
  induction frames with
  | nil => exact h
  | cons f frames ih => exact Body.feed_block ih hunbraced f

/-- A character that the innermost body cannot take stops the reading. -/
theorem Body.step_within_error {q : Program} {c : Char} {f : Fault} (h : q.step c = .error f)
    (frames : List Frame) : (q.within frames).step c = .error f := by
  induction frames with
  | nil => exact h
  | cons frame frames ih =>
      have hblock : (Statement.block frame.draft frame.head (q.within frames)).step c =
          .error f := by
        cases hbody : q.within frames with
        | mk statements current depth finished =>
            rw [hbody, Body.step] at ih
            cases hcurrent : current.step c with
            | ok t =>
                rw [hcurrent] at ih
                cases ih
            | error g =>
                rw [hcurrent] at ih
                cases ih
                simp only [Statement.step, hcurrent]
                rfl
      rw [Body.within, Body.step, hblock]
      rfl

/-- Every action is read alone. -/
theorem ActionText.readsAlone (a : ActionText) : ReadsAlone a.text.toList (.action a.draft) := by
  intro q frames after hq
  have hfeed := (ReadsAs.action a).marked.feed_eq hq
  have hunbraced : ∀ c ∈ a.text.toList ++ [';'], c ≠ '{' ∧ c ≠ '}' := by
    intro c hc
    rcases List.mem_append.1 hc with htext | hmark
    · exact (a.unmarked c htext).2
    · rw [List.mem_singleton.1 hmark]
      decide
  rw [List.append_cons]
  exact Body.feed_append_of_more (Body.feed_within hfeed hunbraced frames) after

/-! ### Characters of values -/

/-- No digit sign is a letter. -/
theorem isNaming_of_isDigitSign {c : Char} (h : isDigitSign c = true) : isNaming c = false := by
  by_cases hascii : c.toNat < 128
  · rw [isDigitSign_of_ascii hascii] at h
    exact isNaming_of_isDigit h
  · rw [isDigitSign, if_neg hascii, digitValue?, if_neg hascii, Option.isSome_map, Bool.or_eq_true,
      List.find?_isSome, Ranges.contains_iff] at h
    have hline : c ≠ '_' := fun heq => hascii (by rw [heq]; decide)
    rw [isNaming, isLetter, if_neg hascii, Bool.or_eq_false_iff, Bool.eq_false_iff, ne_eq,
      Ranges.contains_iff]
    refine ⟨?_, by simpa using hline⟩
    rintro ⟨range, hrange, hle, hlt⟩
    rcases h with ⟨base, hbase, hcode⟩ | ⟨digits, hdigits, hle', hlt'⟩
    · rw [Bool.and_eq_true, decide_eq_true_eq, decide_eq_true_eq] at hcode
      have hapart := Ranges.apart_of_sweep letters_ascending (by decide +kernel)
        (show foreignLetters.sweep (decimalZeros.map fun base => (base, base + 9)) = true by
          decide +kernel) hrange (List.mem_map_of_mem hbase)
      omega
    · have hapart := Ranges.apart_of_sweep letters_ascending (by decide +kernel)
        (show foreignLetters.sweep ornamentalDigits = true by decide +kernel) hrange hdigits
      omega

/-- The characters in the texts of values. -/
def isValueChar (c : Char) : Bool :=
  isNaming c || isDigitSign c || isQuoteMark c || c == '.'

/-- Digits are characters of values. -/
theorem isValueChar_of_isDigit {c : Char} (h : c.isDigit = true) : isValueChar c = true := by
  simp [isValueChar, isDigitSign_of_isDigit h]

/-- Digits of any script are characters of words. -/
theorem isWordChar_of_isDigitSign {c : Char} (h : isDigitSign c = true) : isWordChar c = true := by
  unfold isWordChar
  by_cases hascii : c.toNat < 128
  · rw [isDigitSign_of_ascii hascii] at h
    rw [if_pos hascii, h, Bool.or_true, Bool.true_or]
  · rw [if_neg hascii, h, Bool.or_true, Bool.true_or]

/-- No character of a value is blank. -/
theorem isBlank_of_isValueChar {c : Char} (h : isValueChar c = true) : isBlank c = false := by
  simp only [isValueChar, isNaming, isQuoteMark, Bool.or_eq_true, beq_iff_eq] at h
  rcases h with (((hletter | rfl) | hdigit) | rfl | rfl) | rfl
  · exact isBlank_of_isWordChar (isWordChar_of_isLetter hletter)
  · rfl
  · exact isBlank_of_isWordChar (isWordChar_of_isDigitSign hdigit)
  · rfl
  · rfl
  · rfl

namespace ValueText

/-- A value consists of characters of values. -/
theorem isValueChar_of_mem (v : ValueText) {c : Char} (h : c ∈ v.chars) : isValueChar c = true := by
  cases v with
  | whole n => exact isValueChar_of_isDigit (n.digits c h)
  | decimal x =>
      change c ∈ x.whole ++ '.' :: x.places at h
      rw [List.mem_append, List.mem_cons] at h
      rcases h with hwhole | hpoint | hplaces
      · exact isValueChar_of_isDigit (x.digits c (List.mem_append_left _ hwhole))
      · rw [hpoint]
        decide
      · exact isValueChar_of_isDigit (x.digits c (List.mem_append_right _ hplaces))
  | quoted q =>
      have hmark : isValueChar q.mark = true := by simp [isValueChar, q.quotes]
      change c ∈ q.mark :: (q.word ++ [q.mark]) at h
      rw [List.mem_cons, List.mem_append, List.mem_singleton] at h
      rcases h with hfirst | hword | hlast
      · rw [hfirst, hmark]
      · have hplain := q.plain c hword
        rw [Bool.or_eq_true] at hplain
        rcases hplain with hletter | hdigit
        · simp [isValueChar, isNaming, hletter]
        · simp [isValueChar, hdigit]
      · rw [hlast, hmark]
  | truth b =>
      have hall : (truth b).chars.all isValueChar = true := by cases b <;> decide
      exact List.all_eq_true.1 hall c h
  | «variable» n =>
      rcases List.mem_cons.1 h with hline | hdigit
      · rw [hline]
        decide
      · exact isValueChar_of_isDigit (n.digits c hdigit)

/-- So none of them is another character. -/
theorem ne_of_mem (v : ValueText) {c x : Char} (h : c ∈ v.chars) (hx : isValueChar x = false) :
    c ≠ x := by
  intro heq
  rw [← heq, v.isValueChar_of_mem h] at hx
  cases hx

/-- And no other character is among them. -/
theorem not_mem_chars (v : ValueText) {x : Char} (hx : isValueChar x = false) : x ∉ v.chars :=
  fun h => v.ne_of_mem h hx rfl

/-- A value has at least one character. -/
theorem chars_ne_nil (v : ValueText) : v.chars ≠ [] := by
  cases v with
  | whole n => exact n.nonempty
  | decimal x => exact List.append_ne_nil_of_right_ne_nil _ (List.cons_ne_nil _ _)
  | quoted q => exact List.cons_ne_nil _ _
  | truth b => cases b <;> decide
  | «variable» n => exact List.cons_ne_nil _ _

/-- The text of a return consists of the arrow and the value. -/
theorem mem_returnText (v : ValueText) {c : Char} (h : c ∈ v.returnText) :
    c = '-' ∨ c = '>' ∨ c ∈ v.chars := by
  simpa [returnText] using h

/-- No character that a reader of statements looks out for is in the text of a return. -/
theorem unbraced_returnText (v : ValueText) {c : Char} (h : c ∈ v.returnText) :
    c ≠ ';' ∧ c ≠ '{' ∧ c ≠ '}' ∧ c ≠ '(' ∧ c ≠ ')' ∧ c ≠ '?' := by
  rcases v.mem_returnText h with rfl | rfl | hmem
  · decide
  · decide
  · exact ⟨v.ne_of_mem hmem (by decide), v.ne_of_mem hmem (by decide), v.ne_of_mem hmem (by decide),
      v.ne_of_mem hmem (by decide), v.ne_of_mem hmem (by decide), v.ne_of_mem hmem (by decide)⟩

end ValueText

/-! ### Values that can be returned -/

/-- Nothing needs to stand behind anything in a text with no character of the first kind up to its
first character of the second kind. -/
theorem behind_of_first {p q : Char → Bool} {lead rest : List Char} {c : Char}
    (hlead : ∀ x ∈ lead, p x = false) (hp : p c = false) (hq : q c = true) :
    Behind p q (lead ++ c :: rest) := by
  intro before x after htext hx
  rw [List.append_cons] at htext
  rcases List.append_eq_append_iff.1 htext with ⟨more, hbefore, -⟩ | ⟨cut, hlead', hcut⟩
  · exact ⟨c, by rw [hbefore]; simp, hq⟩
  · cases cut with
    | nil =>
        rw [List.append_nil] at hlead'
        exact ⟨c, by rw [← hlead']; simp, hq⟩
    | cons y cut =>
        have hxy : x = y := (List.cons.inj hcut).1
        have hmem : x ∈ lead ++ [c] := by rw [hlead', hxy]; simp
        rcases List.mem_append.1 hmem with hmem | hmem
        · rw [hlead x hmem] at hx
          cases hx
        · rw [List.mem_singleton.1 hmem, hp] at hx
          cases hx

namespace QuotedText

/-- The quotation mark is a single or a double one. -/
theorem mark_cases (q : QuotedText) : q.mark = '\'' ∨ q.mark = '"' := by
  simpa [isQuoteMark] using q.quotes

/-- A quoted text is read as a literal. -/
theorem ofAtom_chars (q : QuotedText) :
    Expr.ofAtom (ValueText.quoted q).chars = .literal (ValueText.quoted q).chars := by
  have hchars : (ValueText.quoted q).chars = q.mark :: (q.word ++ [q.mark]) := rfl
  rw [hchars, Expr.ofAtom]
  rcases q.mark_cases with hmark | hmark <;> simp [hmark, isLetter, String.toList]

/-- The literal is the word between the quotation marks. -/
theorem literal_chars (q : QuotedText) :
    literal (ValueText.quoted q).chars = .ok (.text (String.ofList q.word)) := by
  have hchars : (ValueText.quoted q).chars = q.mark :: (q.word ++ [q.mark]) := rfl
  have hword : ∀ c ∈ q.word, isQuoteMark c = false := by
    intro c hc
    rw [Bool.eq_false_iff]
    intro hquote
    have hplain := q.plain c hc
    simp only [isQuoteMark, Bool.or_eq_true, beq_iff_eq] at hquote
    rcases hquote with rfl | rfl <;> exact absurd hplain (by decide)
  have hmark : isDigitSign q.mark = false ∧ q.mark ≠ '.' ∧ q.mark ≠ 'T' ∧ q.mark ≠ 'F' ∧
      q.mark ≠ 'N' := by
    rcases q.mark_cases with hmark | hmark <;> rw [hmark] <;> decide
  obtain ⟨hdigit, hpoint, htrue, hfalse, hnone⟩ := hmark
  rw [hchars, literal]
  simp [isDigitText, dropFirst, hdigit, hpoint, htrue, hfalse, hnone,
    trimWhere_between q.quotes q.quotes hword]

end QuotedText

namespace ValueText

/-- Where a returned value does not open with a digit, digits come behind a character of a name. -/
theorem digit_named (v : ValueText) (h : v.opensWithDigit = false) :
    Behind isDigitSign isNaming v.returnText := by
  have hquote : ∀ c, isQuoteMark c = true → isDigitSign c = false := by
    intro c hc
    simp only [isQuoteMark, Bool.or_eq_true, beq_iff_eq] at hc
    rcases hc with rfl | rfl <;> decide
  cases v with
  | whole n => cases h
  | decimal x => cases h
  | quoted q =>
      have hmark := hquote q.mark q.quotes
      cases hword : q.word with
      | nil =>
          have htext : (quoted q).returnText = ['-', '>', q.mark, q.mark] := by
            simp [returnText, chars, hword]
          have hnone : ∀ c ∈ ['-', '>', q.mark, q.mark], isDigitSign c = false := by
            simpa [hmark] using (by decide : isDigitSign '-' = false ∧ isDigitSign '>' = false)
          rw [htext]
          intro before c after hsplit hc
          rw [hnone c (by rw [hsplit]; simp)] at hc
          cases hc
      | cons c cs =>
          have hdigit : isDigitSign c = false := by simpa [opensWithDigit, hword] using h
          have hletter : isLetter c = true := by
            simpa [hdigit] using q.plain c (by rw [hword]; simp)
          have htext : (quoted q).returnText = ['-', '>', q.mark] ++ c :: (cs ++ [q.mark]) := by
            simp [returnText, chars, hword]
          rw [htext]
          refine behind_of_first ?_ hdigit (by simp [isNaming, hletter])
          simpa [hmark] using (by decide : isDigitSign '-' = false ∧ isDigitSign '>' = false)
  | truth b => cases b <;> decide
  | «variable» n =>
      have htext : (ValueText.variable n).returnText = ['-', '>'] ++ '_' :: n.chars := rfl
      rw [htext]
      have hlead : ['-', '>'].all (fun x => !isDigitSign x) = true := by decide
      exact behind_of_first (by simpa using hlead) (by decide) (by decide)

/-- The return of a value that begins with no digit, as the text of an action. -/
def action (v : ValueText) (h : v.opensWithDigit = false) : ActionText where
  text := String.ofList v.returnText
  nonempty := by simp [returnText]
  unmarked := by
    intro c hc
    rw [String.toList_ofList] at hc
    obtain ⟨hmark, hopen, hclose, -⟩ := v.unbraced_returnText hc
    exact ⟨hmark, hopen, hclose⟩
  bracket_last := by
    intro hmem
    rw [String.toList_ofList] at hmem
    exact (v.unbraced_returnText ((List.dropLast_sublist _).subset hmem)).2.2.2.2.1 rfl
  question_inside := by
    intro before c after htext hc
    rw [String.toList_ofList] at htext
    have hmem : c ∈ v.returnText := by rw [htext]; simp
    exact absurd (beq_iff_eq.1 hc) (v.unbraced_returnText hmem).2.2.2.2.2
  digit_named := by
    rw [String.toList_ofList]
    exact v.digit_named h
  no_block_word := by
    have hword : ∀ word : String, word.toList.head? ≠ some '-' →
        String.ofList v.returnText ≠ word := by
      intro word hhead heq
      apply hhead
      rw [← heq, String.toList_ofList]
      rfl
    simp [isBlockWord, hword "if" (by decide), hword "loop" (by decide)]

/-- Such a return is read as a statement of its own. -/
theorem readsAlone (v : ValueText) (h : v.opensWithDigit = false) :
    ReadsAlone v.returnText v.statement := by
  have hread := (v.action h).readsAlone
  have hbracket : ')' ∉ v.returnText := fun hmem => (v.unbraced_returnText hmem).2.2.2.2.1 rfl
  have hdraft : (v.action h).draft = .ofChars v.returnText := by
    simp [ActionText.draft, action, Draft.ofChars, hbracket]
  rw [hdraft] at hread
  simpa [action, statement] using hread

/-- The analysis of a return: what stands behind the arrow is a value. -/
theorem ofText_returnText (v : ValueText) : Expr.ofText v.returnText = .give (.ofAtom v.chars) := by
  obtain ⟨first, others, hchars⟩ := List.exists_cons_of_ne_nil v.chars_ne_nil
  have hmem : first ∈ v.chars := by rw [hchars]; simp
  have hminus : first ≠ '-' := v.ne_of_mem hmem (by decide)
  have hgreater : first ≠ '>' := v.ne_of_mem hmem (by decide)
  have htrim : trim v.chars = v.chars :=
    trimWhere_eq_self fun c hc => isBlank_of_isValueChar (v.isValueChar_of_mem hc)
  have htrim' : trim v.returnText = v.returnText := by
    apply trimWhere_eq_self
    intro c hc
    rcases v.mem_returnText hc with rfl | rfl | hvalue
    · rfl
    · rfl
    · exact isBlank_of_isValueChar (v.isValueChar_of_mem hvalue)
  have harrow : v.returnText.dropWhile isArrowChar = v.chars := by
    rw [returnText, hchars]
    simp [isArrowChar, hminus, hgreater]
  have hreturn : ¬isReturn (trim v.chars) = true := by
    rw [htrim, hchars]
    unfold isReturn
    split
    · rename_i heq
      exact absurd (List.cons.inj heq).1 hminus
    · simp
  rw [Expr.ofText]
  simp only [htrim']
  rw [dif_pos (show isReturn v.returnText = true from rfl), harrow]
  rcases Expr.ofText_cases hreturn (by rw [htrim]; exact v.not_mem_chars (by decide)) with
    ⟨-, hatom⟩ | ⟨sep, op, hsep, hsign, -⟩
  · rw [hatom, htrim]
  · -- No sign of arithmetic is in the text of a value.
    rw [htrim] at hsign
    simp only [isOperatorSign, Bool.or_eq_true, beq_iff_eq] at hsep
    rcases hsep with ((rfl | rfl) | rfl) | rfl <;>
      exact absurd hsign (v.not_mem_chars (by decide))

/-- The text of a value that begins with no digit is evaluated to the value. -/
theorem exec_eval (v : ValueText) (h : v.opensWithDigit = false) {σ : Type}
    (call : Call → Run σ Result) {s : Scope σ} {value : Value}
    (hvalue : v.valueIn s.bindings = some value) :
    ((Expr.ofAtom v.chars).eval call).exec s = (.ok (.ofValue value), s) := by
  have hliteral : ∀ {text : List Char}, Expr.ofAtom text = .literal text →
      literal text = .ok value →
        ((Expr.ofAtom text).eval call).exec s = (.ok (.ofValue value), s) := by
    intro text hatom hread
    rw [hatom, Expr.eval, hread, Run.exec_bind_ok (Run.exec_lift_ok value s), Run.exec_pure]
  cases v with
  | whole n => cases h
  | decimal x => cases h
  | quoted q =>
      cases hvalue
      exact hliteral q.ofAtom_chars q.literal_chars
  | truth b =>
      cases hvalue
      cases b
      · exact hliteral rfl rfl
      · exact hliteral rfl rfl
  | «variable» n =>
      have hatom : Expr.ofAtom (ValueText.variable n).chars =
          .variable (String.ofList ('_' :: n.chars)) := rfl
      have hfind : s.bindings.find? (String.ofList ('_' :: n.chars)) = some value := hvalue
      rw [hatom, Expr.eval, Run.variable, Run.exec_bind, Run.exec_bind_ok (Run.exec_get s), hfind]
      rfl

/-- Running the statement returns the value. -/
theorem exec_statement (v : ValueText) (h : v.opensWithDigit = false) {σ : Type}
    (call : Call → Run σ Result) (m : Mark) (s : Scope σ) (value : Value)
    (hvalue : v.valueIn s.bindings = some value) :
    (v.statement.run call m).exec s =
      (.ok (.returning value, .mk true m.body), { s with returned := true }) := by
  have hexpr : Expr.ofText (Draft.ofChars v.returnText).text.toList = .give (.ofAtom v.chars) := by
    rw [Draft.ofChars, String.toList_ofList, v.ofText_returnText]
  have heval := v.exec_eval h call (s := { s with returned := true }) hvalue
  have hgive : ((Expr.give (.ofAtom v.chars)).eval call).exec { s with returned := false } =
      (.ok (.returning value), { s with returned := true }) := by
    rw [Expr.eval, Run.exec_bind_ok (Run.exec_setReturned true _), Run.exec_bind_ok heval]
    rfl
  rw [statement, Statement.exec_run_action (v.action h).no_block_word hexpr, Run.exec_bind_ok hgive,
    Run.exec_bind_ok (Run.exec_get _)]
  rfl

/-- **A return whose value does not open with a digit is read and run as one.** -/
theorem returnedAlone (v : ValueText) (h : v.opensWithDigit = false) : ReturnedAlone v where
  reads := v.readsAlone h
  gives := v.exec_statement h

/-! ### Values that cannot be returned -/

end ValueText

/-- An arrow begins no number: its minus is a sign, but no digit follows. -/
theorem wholeLiteral_arrow (rest : List Char) :
    wholeLiteral ('-' :: '>' :: rest) = .error .unreadableNumber := by
  obtain ⟨others, hbare⟩ : ∃ others, bareNumeral ('-' :: '>' :: rest) = '-' :: '>' :: others := by
    have hmap : ('-' :: '>' :: rest).map toAscii = '-' :: '>' :: rest.map toAscii := rfl
    have hminus : isAsciiBlank '-' = false := rfl
    have hgreater : isAsciiBlank '>' = false := rfl
    rw [bareNumeral, hmap, trimWhere, List.dropWhile_cons_of_neg (by simp [hminus]),
      List.reverse_cons, List.reverse_cons, List.append_assoc, List.dropWhile_append]
    split
    · exact ⟨[], by simp [hgreater]⟩
    · exact ⟨((rest.map toAscii).reverse.dropWhile isAsciiBlank).reverse, by simp⟩
  have hdigits : readDigits ('>' :: others) = none := rfl
  simp only [wholeLiteral, readWhole, hbare, takeSign, hdigits]

namespace ValueText

/-- Before the digit stand an arrow and at most a point or a quotation mark. -/
theorem exists_lead (v : ValueText) (h : v.opensWithDigit = true) :
    ∃ lead c rest, v.returnText = lead ++ c :: rest ∧ isDigitSign c = true ∧
      lead ∈ [['-', '>'], ['-', '>', '.'], ['-', '>', '\''], ['-', '>', '"']] := by
  cases v with
  | whole n =>
      obtain ⟨c, cs, hchars⟩ := List.exists_cons_of_ne_nil n.nonempty
      have hdigit := n.digits c (by rw [hchars]; simp)
      exact ⟨['-', '>'], c, cs, by rw [returnText, chars, hchars]; rfl,
        isDigitSign_of_isDigit hdigit, by simp⟩
  | decimal x =>
      cases hwhole : x.whole with
      | nil =>
          have hplaces := x.nonempty
          rw [hwhole, List.nil_append] at hplaces
          obtain ⟨c, cs, hchars⟩ := List.exists_cons_of_ne_nil hplaces
          have hdigit := x.digits c (by rw [hchars]; simp)
          exact ⟨['-', '>', '.'], c, cs, by rw [returnText, chars, hwhole, hchars]; rfl,
            isDigitSign_of_isDigit hdigit, by simp⟩
      | cons c cs =>
          have hdigit := x.digits c (by rw [hwhole]; simp)
          exact ⟨['-', '>'], c, cs ++ '.' :: x.places, by rw [returnText, chars, hwhole]; rfl,
            isDigitSign_of_isDigit hdigit, by simp⟩
  | quoted q =>
      cases hword : q.word with
      | nil => simp [opensWithDigit, hword] at h
      | cons c cs =>
          have hdigit : isDigitSign c = true := by simpa [opensWithDigit, hword] using h
          have hmark := q.quotes
          simp only [isQuoteMark, Bool.or_eq_true, beq_iff_eq] at hmark
          refine ⟨['-', '>', q.mark], c, cs ++ [q.mark], by rw [returnText, chars, hword]; rfl,
            hdigit, ?_⟩
          rcases hmark with hmark | hmark <;> simp [hmark]
  | truth b => cases h
  | «variable» n => cases h

/-- The digit starts a loop count, which goes on to the next brace. -/
theorem feed_counts (v : ValueText) (h : v.opensWithDigit = true) {q : Program}
    (hq : q.current = .fresh) {rest : List Char} (hrest : ∀ c ∈ rest, c ≠ '{' ∧ c ≠ '}') :
    q.feed (v.returnText ++ rest) =
      ({ q with current := .count { text := String.ofList (v.returnText ++ rest) } }, .more) := by
  obtain ⟨lead, c, others, htext, hdigit, hlead⟩ := v.exists_lead h
  have hchars : ∀ x ∈ lead, isNaming x = false ∧ isDigitSign x = false ∧
      x ≠ ';' ∧ x ≠ '{' ∧ x ≠ '}' ∧ x ≠ '(' ∧ x ≠ ')' ∧ x ≠ '?' := by
    simp only [List.mem_cons, List.not_mem_nil, or_false] at hlead
    rcases hlead with rfl | rfl | rfl | rfl <;>
      simp only [List.forall_mem_cons, List.not_mem_nil, false_implies, implies_true, and_true] <;>
        decide
  have hcode := Body.feed_code_fresh hq
    (fun x hx => by
      obtain ⟨-, -, hmark, hopen, hclose, -, hbracket, -⟩ := hchars x hx
      exact ⟨hmark, hopen, hclose, hbracket⟩)
    (fun before x after hsplit hx => by
      have hmem : x ∈ lead := by rw [hsplit]; simp
      exact absurd (beq_iff_eq.1 hx) (hchars x hmem).2.2.2.2.2.2.2)
    (fun before x after hsplit hx => by
      have hmem : x ∈ lead := by rw [hsplit]; simp
      rw [(hchars x hmem).2.1] at hx
      cases hx)
  have hunbraced : ∀ x ∈ others ++ rest, x ≠ '{' ∧ x ≠ '}' := by
    intro x hx
    rcases List.mem_append.1 hx with hothers | hx
    · obtain ⟨-, hopen, hclose, -⟩ := v.unbraced_returnText (c := x) (by rw [htext]; simp [hothers])
      exact ⟨hopen, hclose⟩
    · exact hrest x hx
  have hcount := Body.feed_count (p := { q with current := .code (.ofChars lead) }) rfl
    (fun x hx => (hchars x hx).1) (fun hmem => (hchars _ hmem).2.2.2.2.2.1 rfl) hdigit
    (isNaming_of_isDigitSign hdigit) hunbraced
  rw [htext, List.append_assoc, List.cons_append]
  exact (Body.feed_append_of_more hcode _).trans hcount

/-- **A return whose value opens with a digit swallows what follows**, since the digit is taken for
the beginning of a loop. -/
theorem swallowed (v : ValueText) (h : v.opensWithDigit = true) : Swallowed v := by
  have hunbraced : ∀ rest : List Char, (∀ c ∈ rest, c ≠ '{' ∧ c ≠ '}') →
      ∀ c ∈ ';' :: rest, c ≠ '{' ∧ c ≠ '}' := by
    intro rest hrest c hc
    rcases List.mem_cons.1 hc with rfl | hc
    · decide
    · exact hrest c hc
  have hcounts : ∀ (q : Program) (frames : List Frame) (rest : List Char), q.current = .fresh →
      (∀ c ∈ rest, c ≠ '{' ∧ c ≠ '}') →
        (q.within frames).feed (v.returnText ++ ';' :: rest) =
          (Body.within
            { q with current := .count { text := String.ofList (v.returnText ++ ';' :: rest) } }
            frames, .more) := by
    intro q frames rest hq hrest
    refine Body.feed_within (v.feed_counts h hq (hunbraced rest hrest)) ?_ frames
    intro c hc
    rcases List.mem_append.1 hc with hc | hc
    · obtain ⟨-, hopen, hclose, -⟩ := v.unbraced_returnText hc
      exact ⟨hopen, hclose⟩
    · exact hunbraced rest hrest c hc
  refine ⟨hcounts, ?_⟩
  intro q frames rest after hq hrest
  have hstep : Body.step
      { q with current := .count { text := String.ofList (v.returnText ++ ';' :: rest) } } '{' =
        .error .unreadableNumber := by
    have hnumber : wholeLiteral (v.returnText ++ ';' :: rest) = .error .unreadableNumber :=
      wholeLiteral_arrow (v.chars ++ ';' :: rest)
    simp only [Body.step, Statement.step, if_true, String.toList_ofList, hnumber]
    rfl
  have hsplit : v.returnText ++ ';' :: (rest ++ '{' :: after) =
      (v.returnText ++ ';' :: rest) ++ '{' :: after := by simp
  rw [hsplit, Body.feed_append_of_more (hcounts q frames rest hq hrest), Body.feed_cons,
    Body.step_within_error hstep]

end ValueText

/-- **What can be returned.**  For every value, in every place of a plan, its return is read as a
statement of its own that returns the value, exactly if the text of the value has no digit before
its first letter or low line; and what follows it is then read as behind any other action.  In all
other cases the return is swallowed. -/
theorem returned_alone_iff (v : ValueText) :
    (ReturnedAlone v ↔ v.opensWithDigit = false) ∧ (Swallowed v ↔ v.opensWithDigit = true) ∧
      ∀ a : ActionText, ReadsAlone a.text.toList (.action a.draft) := by
  -- Behind an empty plan the two outcomes differ in the statement under way.
  have hdiffer : ¬(ReturnedAlone v ∧ Swallowed v) := by
    rintro ⟨halone, hswallowed⟩
    have hreads := halone.reads Body.fresh [] [] rfl
    rw [hswallowed.counts Body.fresh [] [] rfl (by simp)] at hreads
    have hcurrent := congrArg (fun r => r.1.current) hreads
    cases hcurrent
  cases h : v.opensWithDigit with
  | false =>
      have halone := v.returnedAlone h
      exact ⟨iff_of_true halone rfl, iff_of_false (fun hs => hdiffer ⟨halone, hs⟩) (by simp),
        ActionText.readsAlone⟩
  | true =>
      have hswallowed := v.swallowed h
      exact ⟨iff_of_false (fun ha => hdiffer ⟨ha, hswallowed⟩) (by simp),
        iff_of_true hswallowed rfl, ActionText.readsAlone⟩

/-- The return of five, with its mark, is no statement but a loop count under way. -/
theorem return_of_five_not_read :
    Body.fresh.feed "->5;".toList =
      ({ Body.fresh with current := .count { text := "->5;" } }, .more) ∧
    ¬ReturnedAlone (.whole { chars := ['5'] }) := by
  constructor
  · rfl
  · intro h
    have hreads := h.reads Body.fresh [] [] rfl
    have hcurrent := congrArg (fun r => r.1.current) hreads
    cases hcurrent

end DronePilot.Plan
