import DronePilot.Plan.Evaluator
import DronePilot.Proofs.Numeral
import DronePilot.Proofs.Reading
import Mathlib.Data.List.Basic

/-!
# Reading inverts writing

The grammar of plans, as trees and as text.  A tree is made of actions and of blocks that carry a
heading, a loop count or a condition.  A tree can be written in more than one way: the mark `;`
after an action may be left out behind a closing bracket and before a closing brace, and a block may
or may not be followed by one.  `Written` holds of every such text.

The reader keeps buffers and flags at every level of an open block, so a text cannot be read
statement by statement without saying what is left over in between.  `ReadsAs` says it once: after
the text, a plan that stood between two statements has some more statements, and the statement under
way is plain code which the next mark or closing brace would turn into the rest.  Texts that read as
statements compose (`ReadsAs.append`), a block reads as one statement if its body reads at all
(`ReadsAs.block`), and so every written text reads as its tree.
-/

namespace DronePilot.Plan

open DronePilot.Text DronePilot.Decimal

/-- A character after which a digit no longer starts a loop count. -/
def isNaming (c : Char) : Bool :=
  isLetter c || c == '_'

/-- Every character of the one kind stands behind one of the other kind. -/
def Behind (p q : Char → Bool) (s : List Char) : Prop :=
  ∀ before c after, s = before ++ c :: after → p c = true → ∃ x ∈ before, q x = true

/-- The scan that decides `Behind`; the flag says that a character of the second kind has been
seen. -/
def isBehind (p q : Char → Bool) : Bool → List Char → Bool
  | _, [] => true
  | seen, c :: cs => (!p c || seen) && isBehind p q (seen || q c) cs

theorem isBehind_iff (p q : Char → Bool) (seen : Bool) (s : List Char) :
    isBehind p q seen s = true ↔
      ∀ before c after, s = before ++ c :: after → p c = true →
        seen = true ∨ ∃ x ∈ before, q x = true := by
  induction s generalizing seen with
  | nil => simp [isBehind]
  | cons a s ih =>
      rw [isBehind, Bool.and_eq_true, ih]
      constructor
      · rintro ⟨hfirst, hrest⟩ before c after h hp
        cases before with
        | nil =>
            obtain ⟨rfl, -⟩ := List.cons.inj h
            simpa [hp] using hfirst
        | cons b before =>
            obtain ⟨rfl, rfl⟩ := List.cons.inj h
            have hlater := hrest before c after rfl hp
            grind
      · intro h
        constructor
        · have hfirst := h [] a s rfl
          grind
        · intro before c after hs hp
          have hlater := h (a :: before) c after (by rw [hs]; rfl) hp
          grind

instance (p q : Char → Bool) (s : List Char) : Decidable (Behind p q s) :=
  decidable_of_iff (isBehind p q false s = true) (by simp [isBehind_iff, Behind])

/-- The text of an action: not empty, without marks and braces, with a closing bracket at most as
its last character, a question mark only behind an opening bracket, and a digit only behind a letter
or a low line.  The two words that stand for blocks are no actions. -/
structure ActionText where
  text : String
  nonempty : text.toList ≠ [] := by decide
  unmarked : ∀ c ∈ text.toList, c ≠ ';' ∧ c ≠ '{' ∧ c ≠ '}' := by simp
  bracket_last : ')' ∉ text.toList.dropLast := by decide
  question_inside : Behind (· == '?') (· == '(') text.toList := by decide
  digit_named : Behind isDigitSign isNaming text.toList := by decide
  no_block_word : isBlockWord text = false := by decide

/-- How often a loop runs: a number that is not too long to be read. -/
structure LoopCount where
  count : Nat
  short : (Nat.toDigits 10 count).length ≤ maxDigits := by decide

/-- The text of a condition: anything without braces. -/
structure ConditionText where
  text : String
  unbraced : ∀ c ∈ text.toList, c ≠ '{' ∧ c ≠ '}' := by simp

/-- What stands before the opening brace of a block. -/
inductive Heading where
  | loop (n : LoopCount)
  | conditional (c : ConditionText)

/-- A statement as the grammar has it. -/
inductive Tree where
  | action (a : ActionText)
  | block (heading : Heading) (body : List Tree)

/-- A heading as it is written. -/
def Heading.chars : Heading → List Char
  | .loop n => (toString n.count).toList
  | .conditional c => '?' :: c.text.toList

/-- `Written closing trees text`: the text is one way to write the trees.  The flag says that a
closing brace follows. -/
inductive Written : Bool → List Tree → List Char → Prop
  | none (closing : Bool) : Written closing [] []
  | action {closing : Bool} {rest : List Tree} {text : List Char} (a : ActionText)
      (h : Written closing rest text) :
      Written closing (.action a :: rest) (a.text.toList ++ ';' :: text)
  | call {closing : Bool} {rest : List Tree} {text : List Char} (a : ActionText)
      (hcall : a.text.toList.getLast? = some ')') (h : Written closing rest text) :
      Written closing (.action a :: rest) (a.text.toList ++ text)
  | last (a : ActionText) : Written true [.action a] a.text.toList
  | block {closing : Bool} {body rest : List Tree} {inner text : List Char} (heading : Heading)
      (hbody : Written true body inner) (h : Written closing rest text) :
      Written closing (.block heading body :: rest)
        (heading.chars ++ '{' :: (inner ++ '}' :: text))
  | blockMarked {closing : Bool} {body rest : List Tree} {inner text : List Char}
      (heading : Heading) (hbody : Written true body inner) (h : Written closing rest text) :
      Written closing (.block heading body :: rest)
        (heading.chars ++ '{' :: (inner ++ '}' :: ';' :: text))

/-! ### The statements of a tree -/

/-- The draft of plain code of which the characters have been read. -/
def Draft.ofChars (cs : List Char) : Draft :=
  { text := String.ofList cs, named := cs.any isNaming, inArguments := cs.contains '(' }

/-- The draft of a complete action.  A closing bracket ends its arguments. -/
def ActionText.draft (a : ActionText) : Draft :=
  { text := a.text
    named := a.text.toList.any isNaming
    inArguments := a.text.toList.contains '(' && !a.text.toList.contains ')' }

/-- The draft of a block. -/
def Heading.draft : Heading → Draft
  | .loop n => { text := toString n.count }
  | .conditional c => { text := c.text }

/-- The head of a block. -/
def Heading.head : Heading → Head
  | .loop n => .loop n.count
  | .conditional _ => .conditional

/-- A body that has been read to its closing brace. -/
def Body.complete (statements : List Statement) : Program :=
  { statements := statements, current := .fresh, depth := 0, finished := true }

mutual

/-- The statement that a tree stands for. -/
def Tree.statement : Tree → Statement
  | .action a => .action a.draft
  | .block heading body => .block heading.draft heading.head (.complete (Tree.statements body))

/-- The statements that trees stand for, in order. -/
def Tree.statements : List Tree → List Statement
  | [] => []
  | t :: rest => t.statement :: Tree.statements rest

end

/-! ### Characters of a text under way -/

theorem ofList_concat (cs : List Char) (c : Char) :
    String.ofList (cs ++ [c]) = (String.ofList cs).push c := by
  apply String.toList_inj.mp
  simp

/-- One more character of plain code. -/
theorem Draft.push_ofChars (cs : List Char) (c : Char) :
    (Draft.ofChars cs).push c = Draft.ofChars (cs ++ [c]) := by
  have harguments : (cs ++ [c]).contains '(' = (cs.contains '(' || c == '(') := by
    by_cases hc : c = '('
    · simp [hc]
    · simp [hc, Ne.symm hc]
  simp only [Draft.push, Draft.ofChars, ofList_concat, harguments, isNaming,
    List.any_append, List.any_cons, List.any_nil, Bool.or_false, Bool.or_assoc]

/-- Plain code goes on at a character that is no mark, no bracket or brace that ends it, and opens
neither a condition nor a loop count. -/
theorem Statement.stepCode_continuing {cs : List Char} {c : Char}
    (hmark : c ≠ ';') (hbrace : c ≠ '}') (hbracket : c ≠ ')')
    (hquestion : c = '?' → '(' ∈ cs)
    (hdigit : isDigitSign c = true → ∃ x ∈ cs, isNaming x = true) :
    Statement.stepCode (Draft.ofChars cs) c =
      Statement.continuing (.code (Draft.ofChars (cs ++ [c]))) := by
  have hcondition : (decide (c = '?') && !(Draft.ofChars cs).inArguments) = false := by
    by_cases hc : c = '?'
    · simp [Draft.ofChars, hquestion hc]
    · simp [hc]
  have hcount : (isDigitSign c && !((Draft.ofChars cs).push c).named) = false := by
    cases hd : isDigitSign c with
    | false => rfl
    | true =>
        obtain ⟨x, hx, hnaming⟩ := hdigit hd
        rw [Draft.push_ofChars]
        have hnamed : (Draft.ofChars (cs ++ [c])).named = true :=
          List.any_eq_true.mpr ⟨x, List.mem_append_left _ hx, hnaming⟩
        simp [hnamed]
  unfold Statement.stepCode
  rw [hcondition, hcount, Draft.push_ofChars]
  simp [hmark, hbrace, hbracket]

/-- A text of plain code is read up to its end. -/
theorem Body.feed_code (p : Program) (cs rest : List Char)
    (hunmarked : ∀ c ∈ rest, c ≠ ';' ∧ c ≠ '{' ∧ c ≠ '}' ∧ c ≠ ')')
    (hquestion : Behind (· == '?') (· == '(') (cs ++ rest))
    (hdigit : Behind isDigitSign isNaming (cs ++ rest)) :
    Body.feed { p with current := .code (.ofChars cs) } rest =
      ({ p with current := .code (.ofChars (cs ++ rest)) }, .more) := by
  induction rest generalizing cs with
  | nil => simp
  | cons c rest ih =>
      obtain ⟨hmark, hopen, hclose, hbracket⟩ := hunmarked c (by simp)
      have hstep : Statement.step (.code (.ofChars cs)) c =
          .ok (Statement.continuing (.code (.ofChars (cs ++ [c])))) := by
        rw [Statement.step, Statement.stepCode_continuing hmark hclose hbracket]
        · rintro rfl
          simpa using hquestion cs '?' rest rfl rfl
        · exact hdigit cs c rest rfl
      rw [Body.feed_cons_of_step (Body.step_unbraced hstep hopen hclose) rfl]
      have hrest := ih (cs ++ [c]) (fun x hx => hunmarked x (by simp [hx]))
        (by simpa using hquestion) (by simpa using hdigit)
      simpa [Body.taking, Statement.continuing] using hrest

/-- The same from where no statement is under way. -/
theorem Body.feed_code_fresh {p : Program} (hp : p.current = .fresh) {cs : List Char}
    (hunmarked : ∀ c ∈ cs, c ≠ ';' ∧ c ≠ '{' ∧ c ≠ '}' ∧ c ≠ ')')
    (hquestion : Behind (· == '?') (· == '(') cs) (hdigit : Behind isDigitSign isNaming cs) :
    p.feed cs = ({ p with current := .code (.ofChars cs) }, .more) := by
  have hstart : { p with current := .code (.ofChars []) } = p := by
    have hcurrent : Statement.code (.ofChars []) = p.current := hp.symm
    rw [hcurrent]
  have hcode := Body.feed_code p [] cs hunmarked hquestion hdigit
  rwa [hstart, List.nil_append] at hcode

/-- A condition or a loop count under way takes every character but an opening brace. -/
theorem Body.feed_extending (under : Draft → Statement)
    (hstep : ∀ d c, c ≠ '{' → (under d).step c = .ok (Statement.continuing (under (d.extend c))))
    (p : Program) (d : Draft) (cs : List Char) (hunbraced : ∀ c ∈ cs, c ≠ '{' ∧ c ≠ '}') :
    Body.feed { p with current := under d } cs =
      ({ p with current := under { d with text := d.text ++ String.ofList cs } }, .more) := by
  induction cs generalizing d with
  | nil => simp
  | cons c cs ih =>
      obtain ⟨hopen, hclose⟩ := hunbraced c (by simp)
      rw [Body.feed_cons_of_step (Body.step_unbraced (hstep d c hopen) hopen hclose) rfl]
      have hrest := ih (d.extend c) (fun x hx => hunbraced x (by simp [hx]))
      have htext : (d.extend c).text ++ String.ofList cs = d.text ++ String.ofList (c :: cs) := by
        apply String.toList_inj.mp
        simp [Draft.extend]
      rw [htext] at hrest
      simpa [Body.taking, Statement.continuing, Draft.extend] using hrest

/-! ### Headings -/

/-- An opening brace after the head of a block leads into its empty body. -/
theorem Body.feed_opening {p : Program} {s : Statement} {d : Draft} {head : Head}
    (h : s.step '{' = .ok (Statement.opening d head)) :
    Body.feed { p with current := s } ['{'] = (p.enclosing d head Body.fresh, .more) := by
  have hstep : Body.step { p with current := s } '{' = _ := Body.step_of_current h
  rw [Body.advance_eq] at hstep
  rw [Body.feed_cons_of_step hstep (by simp [Body.closedBy])]
  simp [Body.taking, Statement.opening, Body.enclosing, Body.closedBy, braceDepth, Body.fresh]

theorem isDigitSign_of_isDigit {c : Char} (h : c.isDigit = true) : isDigitSign c = true := by
  have hc := toNat_of_isDigit h
  rw [isDigitSign_of_ascii (by omega), h]

theorem isNaming_of_isDigit {c : Char} (h : c.isDigit = true) : isNaming c = false := by
  have hc := toNat_of_isDigit h
  have hline : c ≠ '_' := by
    rintro rfl
    exact absurd h (by decide)
  have halpha : c.isAlpha = false := by
    rw [Bool.eq_false_iff]
    intro ha
    delta Char.isAlpha Char.isUpper Char.isLower at ha
    simp only [UInt32.le_iff_toNat_le, ge_iff_le, Bool.or_eq_true, Bool.and_eq_true,
      decide_eq_true_eq] at ha
    change (65 ≤ c.toNat ∧ c.toNat ≤ 90) ∨ (97 ≤ c.toNat ∧ c.toNat ≤ 122) at ha
    omega
  rw [isNaming, isLetter_of_ascii (by omega), halpha]
  simp [hline]

/-- A digit in plain code without a name in it starts a loop count. -/
theorem Statement.step_code_digit {cs : List Char} (hcs : ∀ x ∈ cs, isNaming x = false) {c : Char}
    (h : isDigitSign c = true) (hname : isNaming c = false) :
    Statement.step (.code (.ofChars cs)) c =
      .ok (Statement.continuing (.count (.ofChars (cs ++ [c])))) := by
  have hne : ∀ x : Char, isDigitSign x = false → c ≠ x := by
    rintro x hx rfl
    rw [h] at hx
    cases hx
  have hunnamed : (Draft.ofChars (cs ++ [c])).named = false := by
    simpa [Draft.ofChars, hname] using hcs
  rw [Statement.step, Statement.stepCode, Draft.push_ofChars, hunnamed, h]
  simp [hne '?' (by decide), hne ';' (by decide), hne '}' (by decide), hne ')' (by decide)]

/-- A digit in plain code without a name in it starts a loop count, and up to the next brace
everything is taken for a part of it. -/
theorem Body.feed_count {p : Program} {cs : List Char} (hp : p.current = .code (.ofChars cs))
    (hcs : ∀ x ∈ cs, isNaming x = false) (hbracket : '(' ∉ cs) {c : Char}
    (hc : isDigitSign c = true) (hname : isNaming c = false) {rest : List Char}
    (hrest : ∀ x ∈ rest, x ≠ '{' ∧ x ≠ '}') :
    p.feed (c :: rest) =
      ({ p with current := .count { text := String.ofList (cs ++ c :: rest) } }, .more) := by
  have hne : ∀ x : Char, isDigitSign x = false → c ≠ x := by
    rintro x hx rfl
    rw [hc] at hx
    cases hx
  have hfirst := Statement.step_code_digit hcs hc hname
  rw [← hp] at hfirst
  rw [Body.feed_cons_of_step
    (Body.step_unbraced hfirst (hne '{' (by decide)) (hne '}' (by decide))) rfl]
  have hdraft : Draft.ofChars (cs ++ [c]) = { text := String.ofList (cs ++ [c]) } := by
    simpa [Draft.ofChars, hname, hbracket, (hne '(' (by decide)).symm] using hcs
  have hcount := Body.feed_extending Statement.count
    (fun d c hc => by rw [Statement.step, if_neg hc]) p { text := String.ofList (cs ++ [c]) } rest
    hrest
  have htext : String.ofList (cs ++ [c]) ++ String.ofList rest =
      String.ofList (cs ++ c :: rest) := by
    apply String.toList_inj.mp
    simp
  rw [htext] at hcount
  rw [hdraft]
  exact hcount

/-- Digits in plain code without a name in it are a loop count under way. -/
theorem Body.feed_digits {p : Program} {cs : List Char} (hp : p.current = .code (.ofChars cs))
    (hcs : ∀ x ∈ cs, isNaming x = false) (hbracket : '(' ∉ cs) (ds : List Char) (hne : ds ≠ [])
    (hdigits : ∀ c ∈ ds, c.isDigit = true) :
    p.feed ds = ({ p with current := .count { text := String.ofList (cs ++ ds) } }, .more) := by
  cases ds with
  | nil => exact absurd rfl hne
  | cons c ds =>
      have hc : c.isDigit = true := hdigits c (by simp)
      refine Body.feed_count hp hcs hbracket (isDigitSign_of_isDigit hc) (isNaming_of_isDigit hc) ?_
      intro x hx
      have hdigit := hdigits x (by simp [hx])
      constructor <;> rintro rfl <;> exact absurd hdigit (by decide)

theorem Body.feed_loopCount {p : Program} {cs : List Char} (hp : p.current = .code (.ofChars cs))
    (hcs : ∀ x ∈ cs, isNaming x = false) (hbracket : '(' ∉ cs) (n : LoopCount) :
    p.feed (toString n.count).toList =
      ({ p with
          current := .count { text := String.ofList (cs ++ (toString n.count).toList) } },
        .more) := by
  have htext : (toString n.count).toList = Nat.toDigits 10 n.count := Nat.toList_repr
  refine Body.feed_digits hp hcs hbracket _ ?_ ?_
  · rw [htext]
    exact Nat.toDigits_ne_nil
  · intro c hc
    rw [htext] at hc
    exact Nat.isDigit_of_mem_toDigits (by decide) (by decide) hc

/-- **Headings.**  A heading and an opening brace lead into the body of its block. -/
theorem Body.feed_heading {p : Program} (hp : p.current = .fresh) (heading : Heading) :
    p.feed (heading.chars ++ ['{']) =
      (p.enclosing heading.draft heading.head Body.fresh, .more) := by
  cases heading with
  | loop n =>
      have hcount := Body.feed_loopCount (show p.current = .code (.ofChars []) from hp) (by simp)
        (by simp) n
      rw [List.nil_append, String.ofList_toList] at hcount
      refine (Body.feed_append_of_more hcount ['{']).trans (Body.feed_opening ?_)
      rw [Statement.step, if_pos rfl, wholeLiteral_toString n.short]
      rfl
  | conditional c =>
      have hfirst : p.current.step '?' = .ok (Statement.continuing (.condition {})) := by
        rw [hp]
        rfl
      have hrest := Body.feed_extending Statement.condition
        (fun d c hc => by rw [Statement.step, if_neg hc]) p {} c.text.toList c.unbraced
      simp only [String.empty_append, String.ofList_toList] at hrest
      simp only [Heading.chars, Heading.draft, Heading.head, List.cons_append]
      rw [Body.feed_cons_of_step (Body.step_unbraced hfirst (by decide) (by decide)) rfl]
      refine (Body.feed_append_of_more hrest ['{']).trans (Body.feed_opening ?_)
      rfl

/-! ### Texts that read as statements -/

/-- What is kept of plain code when a mark or a closing brace ends it: an action, if it has a
text. -/
def Draft.kept (d : Draft) : List Statement :=
  if d.text = "" then [] else [.action d]

/-- `ReadsAs closing text statements`: a plan that stands between two statements reads the text
without stopping and has the statements then, once what is under way has been ended.  Only before a
closing brace may anything be under way. -/
def ReadsAs (closing : Bool) (text : List Char) (statements : List Statement) : Prop :=
  ∀ p : Program, p.current = .fresh → ∃ added d,
    p.feed text =
      ({ p with statements := p.statements ++ added, current := .code d }, .more) ∧
    added ++ d.kept = statements ∧ (closing = false → d = {})

/-- A mark ends the plain code under way. -/
theorem Body.feed_mark (p : Program) (d : Draft) :
    Body.feed { p with current := .code d } [';'] =
      ({ p with statements := p.statements ++ d.kept, current := .fresh }, .more) := by
  have hstep : Statement.step (.code d) ';' = .ok (Statement.acting d) := by
    simp [Statement.step, Statement.stepCode]
  rw [Body.feed_cons_of_step (Body.step_unbraced hstep (by decide) (by decide)) rfl]
  by_cases htext : d.text = "" <;>
    simp [Body.taking, Statement.acting, Statement.isProper, Draft.kept, htext]

/-- A closing brace ends the plain code under way, and with it the body. -/
theorem Body.step_close (p : Program) (d : Draft) (hdepth : p.depth = 0) :
    Body.step { p with current := .code d } '}' =
      .ok { next :=
              { p with
                statements := p.statements ++ d.kept
                current := .fresh
                finished := true }
            closed := true
            ready := d.text != "" } := by
  have hstep : Statement.step (.code d) '}' = .ok (Statement.acting d) := by
    simp [Statement.step, Statement.stepCode]
  have hplan : Body.step { p with current := .code d } '}' = _ := Body.step_of_current hstep
  rw [hplan, Body.advance_eq]
  by_cases htext : d.text = "" <;>
    simp [Body.taking, Body.closedBy, braceDepth, Statement.acting, Statement.isProper, Draft.kept,
      htext, hdepth]

namespace ReadsAs

theorem nil (closing : Bool) : ReadsAs closing [] [] := by
  intro p hp
  refine ⟨[], {}, ?_, rfl, fun _ => rfl⟩
  have hcurrent : Statement.code {} = p.current := hp.symm
  rw [hcurrent]
  simp

/-- A text after which nothing is under way may also stand before a closing brace. -/
theorem weaken {text : List Char} {statements : List Statement} (h : ReadsAs false text statements)
    (closing : Bool) : ReadsAs closing text statements := by
  intro p hp
  obtain ⟨added, d, hfeed, hkept, hd⟩ := h p hp
  exact ⟨added, d, hfeed, hkept, fun _ => hd rfl⟩

/-- Texts read one after the other. -/
theorem append {closing : Bool} {s t : List Char} {xs ys : List Statement}
    (hs : ReadsAs false s xs) (ht : ReadsAs closing t ys) :
    ReadsAs closing (s ++ t) (xs ++ ys) := by
  intro p hp
  obtain ⟨added, d, hfeed, hkept, hd⟩ := hs p hp
  have hempty : d = {} := hd rfl
  subst hempty
  have hadded : added = xs := by simpa [Draft.kept] using hkept
  subst hadded
  obtain ⟨added', d', hfeed', hkept', hd'⟩ :=
    ht { p with statements := p.statements ++ added, current := .code {} } rfl
  refine ⟨added ++ added', d', ?_, by rw [List.append_assoc, hkept'], hd'⟩
  rw [Body.feed_append_of_more hfeed, hfeed']
  simp

/-- A mark ends whatever is under way. -/
theorem marked {s : List Char} {xs : List Statement} (hs : ReadsAs true s xs) :
    ReadsAs false (s ++ [';']) xs := by
  intro p hp
  obtain ⟨added, d, hfeed, hkept, -⟩ := hs p hp
  refine ⟨xs, {}, ?_, by simp [Draft.kept], fun _ => rfl⟩
  have hmark := Body.feed_mark { p with statements := p.statements ++ added } d
  rw [Body.feed_append_of_more hfeed]
  refine hmark.trans ?_
  simp [← hkept, Statement.fresh]

/-- After a text with nothing left under way a plan stands between two statements again. -/
theorem feed_eq {text : List Char} {statements : List Statement}
    (h : ReadsAs false text statements) {p : Program} (hp : p.current = .fresh) :
    p.feed text =
      ({ p with statements := p.statements ++ statements, current := .fresh }, .more) := by
  obtain ⟨added, d, hfeed, hkept, hd⟩ := h p hp
  have hempty : d = {} := hd rfl
  subst hempty
  have hadded : added = statements := by simpa [Draft.kept] using hkept
  rw [hfeed, hadded]
  rfl

/-- A text that opens a block, and a body between braces, read as one block, complete with its
body. -/
theorem enclosed {opening inner : List Char} {d : Draft} {head : Head} {body : List Statement}
    (hopening : ∀ p : Program, p.current = .fresh →
      p.feed (opening ++ ['{']) = (p.enclosing d head Body.fresh, .more))
    (h : ReadsAs true inner body) :
    ReadsAs false (opening ++ '{' :: (inner ++ ['}'])) [.block d head (.complete body)] := by
  intro p hp
  obtain ⟨added, d', hfeed, hkept, -⟩ := h Body.fresh rfl
  refine ⟨[.block d head (.complete body)], {}, ?_, by simp [Draft.kept], fun _ => rfl⟩
  have hinner := Body.feed_enclosing p d head hfeed
  have hclosed := Body.step_enclosing_closed p d head
    (Body.step_close { Body.fresh with statements := added } d' rfl) rfl
  have hsplit : opening ++ '{' :: (inner ++ ['}']) = (opening ++ ['{']) ++ (inner ++ ['}']) := by
    simp
  rw [hsplit, Body.feed_append_of_more (hopening p hp), Body.feed_append_of_more hinner]
  simp only [Body.fresh, List.nil_append] at hclosed ⊢
  rw [Body.feed_cons_of_step hclosed rfl, Body.feed_nil, hkept]
  rfl

/-- **Blocks.**  A heading and a body between braces read as one block. -/
theorem block (heading : Heading) {inner : List Char} {body : List Statement}
    (h : ReadsAs true inner body) :
    ReadsAs false (heading.chars ++ '{' :: (inner ++ ['}']))
      [.block heading.draft heading.head (.complete body)] :=
  enclosed (fun _ hp => Body.feed_heading hp heading) h

/-- The text of an action before its closing bracket, if it has one, is plain code under way. -/
theorem feed_action {p : Program} (hp : p.current = .fresh) (a : ActionText) {cs after : List Char}
    (htext : a.text.toList = cs ++ after) (hbracket : ')' ∉ cs) :
    p.feed cs = ({ p with current := .code (.ofChars cs) }, .more) := by
  -- The conditions on question marks and digits look back only, so they hold of a first part.
  have hpart : ∀ {p q : Char → Bool}, Behind p q a.text.toList → Behind p q cs := by
    intro p q hbehind before c rest h
    exact hbehind before c (rest ++ after) (by rw [htext, h]; simp)
  refine Body.feed_code_fresh hp ?_ (hpart a.question_inside) (hpart a.digit_named)
  intro c hc
  obtain ⟨hmark, hopen, hclose⟩ := a.unmarked c (by rw [htext]; simp [hc])
  refine ⟨hmark, hopen, hclose, ?_⟩
  rintro rfl
  exact hbracket hc

/-- An action that ends in a closing bracket is complete with it. -/
theorem call (a : ActionText) (h : a.text.toList.getLast? = some ')') :
    ReadsAs false a.text.toList [.action a.draft] := by
  intro p hp
  refine ⟨[.action a.draft], {}, ?_, by simp [Draft.kept], fun _ => rfl⟩
  have htext : a.text.toList = a.text.toList.dropLast ++ [')'] :=
    (List.dropLast_append_getLast? ')' h).symm
  have hinit := feed_action hp a htext a.bracket_last
  have hdraft : (Draft.ofChars a.text.toList.dropLast).closeCall = a.draft := by
    have hmem : ')' ∈ a.text.toList := List.mem_of_getLast? h
    have hchars : (String.ofList a.text.toList.dropLast).push ')' = a.text := by
      rw [← ofList_concat, ← htext, String.ofList_toList]
    have hnamed : a.text.toList.dropLast.any isNaming = a.text.toList.any isNaming := by
      conv => rhs; rw [htext]
      simp [show isNaming ')' = false by decide]
    simp [Draft.closeCall, Draft.ofChars, ActionText.draft, hchars, hnamed, hmem]
  have hstep : Statement.step (.code (.ofChars a.text.toList.dropLast)) ')' =
      .ok (Statement.acting a.draft) := by
    simp [Statement.step, Statement.stepCode, hdraft]
  have hproper : a.draft.text ≠ "" := by
    intro hempty
    exact a.nonempty (by rw [show a.text = "" from hempty]; rfl)
  conv => lhs; rw [htext]
  rw [Body.feed_append_of_more hinit,
    Body.feed_cons_of_step (Body.step_unbraced hstep (by decide) (by decide)) rfl]
  simp [Body.taking, Statement.acting, Statement.isProper, hproper, Statement.fresh]

/-- **Actions.**  The text of an action reads as the action, to be ended by what follows. -/
theorem action (a : ActionText) : ReadsAs true a.text.toList [.action a.draft] := by
  by_cases hlast : a.text.toList.getLast? = some ')'
  · exact (call a hlast).weaken true
  · have hbracket : ')' ∉ a.text.toList := by
      intro hmem
      rw [← List.dropLast_append_getLast a.nonempty, List.mem_append] at hmem
      rcases hmem with hinit | hend
      · exact a.bracket_last hinit
      · apply hlast
        rw [List.getLast?_eq_some_getLast a.nonempty, ← List.mem_singleton.mp hend]
    have hdraft : Draft.ofChars a.text.toList = a.draft := by
      simp [Draft.ofChars, ActionText.draft, hbracket]
    have hproper : a.draft.text ≠ "" := by
      intro hempty
      exact a.nonempty (by rw [show a.text = "" from hempty]; rfl)
    intro p hp
    refine ⟨[], a.draft, ?_, by simp [Draft.kept, hproper], by simp⟩
    rw [feed_action hp a (List.append_nil _).symm hbracket, hdraft]
    simp

end ReadsAs

/-- **Every written text reads as its trees.** -/
theorem Written.readsAs {closing : Bool} {trees : List Tree} {text : List Char}
    (h : Written closing trees text) : ReadsAs closing text (Tree.statements trees) := by
  induction h with
  | none closing => exact ReadsAs.nil closing
  | @action closing rest text a _ ih =>
      have hfirst := (ReadsAs.action a).marked.append ih
      simpa [Tree.statements, Tree.statement] using hfirst
  | @call closing rest text a hcall _ ih =>
      simpa [Tree.statements, Tree.statement] using (ReadsAs.call a hcall).append ih
  | last a => simpa [Tree.statements, Tree.statement] using ReadsAs.action a
  | @block closing body rest inner text heading _ _ ihbody ih =>
      simpa [Tree.statements, Tree.statement] using (ReadsAs.block heading ihbody).append ih
  | @blockMarked closing body rest inner text heading _ _ ihbody ih =>
      have hfirst := ((ReadsAs.block heading ihbody).weaken true).marked.append ih
      simpa [Tree.statements, Tree.statement] using hfirst

/-- **Reading inverts writing.**  A text that is one way to write a list of trees, of any depth and
width, is read to its end into a plan between two statements, with no brace open, that consists of
exactly the statements of these trees. -/
theorem feed_of_written {trees : List Tree} {text : List Char} (h : Written false trees text) :
    Body.fresh.feed text =
      ({ statements := Tree.statements trees, current := .fresh, depth := 0, finished := false },
        .more) := by
  obtain ⟨added, d, hfeed, hkept, hd⟩ := h.readsAs Body.fresh rfl
  have hempty : d = {} := hd rfl
  subst hempty
  have hadded : added = Tree.statements trees := by simpa [Draft.kept] using hkept
  rw [hfeed, hadded]
  rfl

/-- A loop around a conditional, with the last action of each body left without its mark, a mark
behind the loop, a question mark and digits inside brackets, and a loop count of two digits. -/
theorem feed_of_written_search :
    Body.fresh.feed
        "12\x7b?iv('cup')==True\x7bl('cup?');->True\x7dtc(45)\x7d;_1=oh('cup');l(_1)".toList =
      ({ statements := Tree.statements
          [.block (.loop { count := 12 })
            [.block (.conditional { text := "iv('cup')==True" })
              [.action { text := "l('cup?')" }, .action { text := "->True" }],
             .action { text := "tc(45)" }],
           .action { text := "_1=oh('cup')" }, .action { text := "l(_1)" }]
         current := .fresh
         depth := 0
         finished := false }, .more) :=
  feed_of_written
    (.blockMarked _ (.block _ (.action _ (.last _)) (.call _ rfl (.none true)))
      (.action _ (.call _ rfl (.none false))))

end DronePilot.Plan
