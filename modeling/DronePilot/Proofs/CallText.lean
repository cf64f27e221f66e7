import DronePilot.Proofs.FirstCall
import DronePilot.Proofs.Grammar
import DronePilot.Proofs.Growth

/-!
# Texts that begin with a call

A name, an opening bracket and some text.  The reader ends the statement at the first mark, closing
bracket or closing brace, whether it stands between quotation marks or not, and the analysis cuts it
at every sign of arithmetic.  So what is called first is the name with what stands before the first
of these characters (`exists_first_call`).  Without such characters, and without an equals sign, the
text up to its closing bracket is one call (`reads_as_call`).
-/

namespace DronePilot.Plan

open DronePilot.Text DronePilot.Decimal

/-! ### Names -/

/-- A name that plans can call: a letter, and after it characters of words. -/
def isCallable : List Char → Bool
  | [] => false
  | c :: cs => isLetter c && cs.all isWordChar

/-- Letters are characters of words. -/
theorem isWordChar_of_isLetter {c : Char} (h : isLetter c = true) : isWordChar c = true := by
  unfold isLetter at h
  unfold isWordChar
  split at h
  · rename_i hascii
    simp [hascii, h]
  · rename_i hascii
    simp [hascii, h]

/-- A letter is not another character. -/
theorem ne_of_isLetter {c d : Char} (hc : isLetter c = true) (hd : isLetter d = false) : c ≠ d := by
  intro heq
  rw [← heq, hc] at hd
  cases hd

/-- The codes of the blanks. -/
def blankCodes : List Nat :=
  List.range' 9 5 ++ List.range' 28 5 ++ [0x85, 0xa0, 0x1680] ++ List.range' 0x2000 11 ++
    [0x2028, 0x2029, 0x202f, 0x205f, 0x3000]

/-- A blank has one of the codes of blanks. -/
theorem mem_blankCodes {c : Char} (h : isBlank c = true) : c.toNat ∈ blankCodes := by
  simp only [isBlank, Bool.or_eq_true, Bool.and_eq_true, decide_eq_true_eq, beq_iff_eq] at h
  simp only [blankCodes, List.mem_append, List.mem_range'_1, List.mem_cons, List.not_mem_nil,
    or_false]
  omega

/-- No blank is in a word. -/
theorem isBlank_of_isWordChar {c : Char} (h : isWordChar c = true) : isBlank c = false := by
  cases hblank : isBlank c with
  | false => rfl
  | true =>
      have hcodes : ∀ n ∈ blankCodes, isWordChar (Char.ofNat n) = false := by decide +kernel
      have hword := hcodes c.toNat (mem_blankCodes hblank)
      rw [Char.ofNat_toNat, h] at hword
      cases hword

section

variable {name : List Char}

/-- The name of a skill consists of characters of words. -/
theorem isWordChar_of_callable (hname : isCallable name = true) {c : Char} (hc : c ∈ name) :
    isWordChar c = true := by
  cases name with
  | nil => cases hc
  | cons first rest =>
      simp only [isCallable, Bool.and_eq_true, List.all_eq_true] at hname
      rcases List.mem_cons.1 hc with heq | hrest
      · rw [heq]
        exact isWordChar_of_isLetter hname.1
      · exact hname.2 c hrest

/-- A character that is in no word is in no name. -/
theorem not_mem_of_callable (hname : isCallable name = true) {c : Char}
    (hc : isWordChar c = false) : c ∉ name := by
  intro hmem
  rw [isWordChar_of_callable hname hmem] at hc
  cases hc

/-- It begins with a letter. -/
theorem exists_first_letter (hname : isCallable name = true) :
    ∃ c cs, name = c :: cs ∧ isLetter c = true := by
  cases name with
  | nil => cases hname
  | cons c cs =>
      simp only [isCallable, Bool.and_eq_true] at hname
      exact ⟨c, cs, rfl, hname.1⟩

/-! ### Trimming -/

/-- Trimming a text that begins with a name and a bracket shortens what comes after the bracket. -/
theorem exists_trim_named (hname : isCallable name = true) (r : List Char) :
    ∃ r', trim (name ++ '(' :: r) = name ++ '(' :: r' ∧ r' <+: r := by
  obtain ⟨before, after, htext, hbefore, hafter⟩ := exists_trim (name ++ '(' :: r)
  -- The text does not begin with a blank.
  have hnil : before = [] := by
    cases before with
    | nil => rfl
    | cons b before =>
        obtain ⟨c, cs, hname', hletter⟩ := exists_first_letter hname
        have hc : c = b := by
          rw [hname'] at htext
          exact (List.cons.inj htext).1
        have hblank := hbefore b List.mem_cons_self
        rw [← hc, isBlank_of_isWordChar (isWordChar_of_isLetter hletter)] at hblank
        cases hblank
  rw [hnil, List.nil_append] at htext
  have hsplit : (name ++ ['(']) ++ r = trim (name ++ '(' :: r) ++ after := by
    rw [← htext]
    simp
  rcases List.append_eq_append_iff.1 hsplit with ⟨r', htrim, hr⟩ | ⟨cut, hopen, hafter'⟩
  · exact ⟨r', by rw [htrim]; simp, ⟨after, hr.symm⟩⟩
  · cases cut with
    | nil => exact ⟨[], by simpa using hopen.symm, List.nil_prefix⟩
    | cons b cut =>
        -- The bracket would be among the blanks at the end.
        have hlast : (b :: cut).getLast? = some '(' := by
          rw [← List.getLast?_append_of_ne_nil (trim (name ++ '(' :: r)) (List.cons_ne_nil b cut),
            ← hopen]
          simp
        have hmem : '(' ∈ after := by
          rw [hafter']
          exact List.mem_append_left _ (List.mem_of_getLast? hlast)
        cases hafter '(' hmem

/-- A text that neither begins nor ends with a blank is trimmed. -/
theorem trim_eq_self {s : List Char} (hfirst : ∀ c, s.head? = some c → isBlank c = false)
    (hlast : ∀ c, s.getLast? = some c → isBlank c = false) : trim s = s := by
  have hdrop {t : List Char} (h : ∀ c, t.head? = some c → isBlank c = false) :
      t.dropWhile isBlank = t := by
    cases t with
    | nil => rfl
    | cons c t => simp [h c rfl]
  have hreverse : ∀ c, s.reverse.head? = some c → isBlank c = false := by
    simpa using hlast
  rw [trim, trimWhere, hdrop hfirst, hdrop hreverse, List.reverse_reverse]

/-- A call has no blanks around it to trim. -/
theorem trim_named (hname : isCallable name = true) (u : List Char) :
    trim (name ++ '(' :: (u ++ [')'])) = name ++ '(' :: (u ++ [')']) := by
  obtain ⟨first, others, rfl, hletter⟩ := exists_first_letter hname
  apply trim_eq_self
  · intro c hc
    cases hc
    exact isBlank_of_isWordChar (isWordChar_of_isLetter hletter)
  · intro c hc
    have hsplit : first :: others ++ '(' :: (u ++ [')']) =
        (first :: others ++ '(' :: u) ++ [')'] := by simp
    rw [hsplit, List.getLast?_concat] at hc
    cases hc
    rfl

/-- What a trimmed text has before its last character, the text has before its last one. -/
theorem mem_dropLast_of_trim {r : List Char} {c : Char} (h : c ∈ (trim r).dropLast) :
    c ∈ r.dropLast := by
  obtain ⟨before, after, htext, -, -⟩ := exists_trim r
  have hne : trim r ≠ [] := by
    intro hnil
    rw [hnil] at h
    cases h
  rw [htext]
  cases after with
  | nil =>
      rw [List.append_nil, List.dropLast_append_of_ne_nil hne]
      exact List.mem_append_right _ h
  | cons a after =>
      rw [List.dropLast_append_of_ne_nil (List.cons_ne_nil a after)]
      have hmem := (List.dropLast_sublist _).subset h
      simp [hmem]

/-- What comes before the end of a beginning comes before the end of the whole. -/
theorem mem_dropLast_of_beginning {r r' : List Char} (h : r' <+: r) {c : Char}
    (hc : c ∈ r'.dropLast) : c ∈ r.dropLast := by
  obtain ⟨more, rfl⟩ := h
  cases more with
  | nil => rwa [List.append_nil]
  | cons a more =>
      rw [List.dropLast_append_of_ne_nil (List.cons_ne_nil a more)]
      exact List.mem_append_left _ ((List.dropLast_sublist _).subset hc)

/-! ### Analysis -/

/-- The arguments between an opening bracket and the last character of a text. -/
def argumentsOf (r : List Char) : List Argument :=
  (splitArguments (trim r).dropLast).map Argument.ofText

/-- A text is cut at the first separator. -/
theorem cutAt?_append {sep : Char} {a : List Char} (ha : sep ∉ a) (b : List Char) :
    cutAt? sep (a ++ sep :: b) = some (a, b) := by
  induction a with
  | nil => simp [cutAt?]
  | cons c a ih =>
      have hc : c ≠ sep := by
        intro heq
        exact ha (heq ▸ List.mem_cons_self)
      have ha' : sep ∉ a := fun hmem => ha (List.mem_cons_of_mem _ hmem)
      rw [List.cons_append, cutAt?, if_neg hc, ih ha']
      rfl

/-- A name and a bracket are read as a call. -/
theorem Call.ofText_named (hname : isCallable name = true) (r : List Char) :
    Call.ofText (name ++ '(' :: r) =
      { name := String.ofList name, arguments := argumentsOf r } := by
  have htrim : trim name = name :=
    trimWhere_eq_self fun c hc => isBlank_of_isWordChar (isWordChar_of_callable hname hc)
  rw [Call.ofText, cutAt?_append (not_mem_of_callable hname (by decide))]
  simp only [htrim]
  rfl

/-- So they are as an atom. -/
theorem Expr.ofAtom_named (hname : isCallable name = true) (r : List Char) :
    Expr.ofAtom (name ++ '(' :: r) =
      .call { name := String.ofList name, arguments := argumentsOf r } := by
  obtain ⟨c, cs, rfl, hletter⟩ := exists_first_letter hname
  have hline : c ≠ '_' := ne_of_isLetter hletter (by decide)
  have hbracket : '(' ∈ c :: cs ++ '(' :: r := by simp
  have hword : ∀ word : List Char, '(' ∉ word → c :: cs ++ '(' :: r ≠ word := by
    intro word hnot heq
    exact hnot (heq ▸ hbracket)
  rw [← Call.ofText_named hname r, List.cons_append, Expr.ofAtom, if_neg hline, ← List.cons_append,
    decide_eq_false (hword "True".toList (by decide)),
    decide_eq_false (hword "False".toList (by decide))]
  simp [hletter]

/-- A call is not a return. -/
theorem not_isReturn_named (hname : isCallable name = true) (r : List Char) :
    ¬isReturn (name ++ '(' :: r) = true := by
  obtain ⟨c, cs, rfl, hletter⟩ := exists_first_letter hname
  intro h
  unfold isReturn at h
  split at h
  · rename_i heq
    rw [(List.cons.inj heq).1] at hletter
    cases hletter
  · cases h

/-- A text that neither returns nor assigns is an atom, or it is cut at a sign of arithmetic. -/
theorem Expr.ofText_cases {s : List Char} (hreturn : ¬isReturn (trim s) = true)
    (hequals : '=' ∉ trim s) :
    (Signless (trim s) ∧ Expr.ofText s = .ofAtom (trim s)) ∨
      ∃ sep op, isOperatorSign sep = true ∧ sep ∈ trim s ∧
        ((∃ v, Expr.ofText s = .chain op (.const v) ((pieces sep (trim s)).map Expr.ofText)) ∨
          Expr.ofText s = .chainFirst op ((pieces sep (trim s)).map Expr.ofText)) := by
  rw [Expr.ofText]
  simp only [List.attach_map_val]
  rw [dif_neg hreturn, dif_neg hequals]
  by_cases hplus : '+' ∈ trim s
  · rw [dif_pos hplus]
    exact Or.inr ⟨'+', .add, rfl, hplus, Or.inl ⟨.int 0, rfl⟩⟩
  rw [dif_neg hplus]
  by_cases hminus : '-' ∈ trim s
  · rw [dif_pos hminus]
    exact Or.inr ⟨'-', .sub, rfl, hminus, Or.inr rfl⟩
  rw [dif_neg hminus]
  by_cases htimes : '*' ∈ trim s
  · rw [dif_pos htimes]
    exact Or.inr ⟨'*', .mul, rfl, htimes, Or.inl ⟨.int 1, rfl⟩⟩
  rw [dif_neg htimes]
  by_cases hover : '/' ∈ trim s
  · rw [dif_pos hover]
    exact Or.inr ⟨'/', .div, rfl, hover, Or.inr rfl⟩
  rw [dif_neg hover]
  refine Or.inl ⟨?_, rfl⟩
  intro c hc
  have hne {sep : Char} (hsep : sep ∉ trim s) : c ≠ sep := fun heq => hsep (heq ▸ hc)
  simp [isOperatorSign, hne hplus, hne hminus, hne htimes, hne hover]

/-- A call has an equals sign only among its arguments. -/
theorem not_mem_equals_named (hname : isCallable name = true) {r : List Char} (hequals : '=' ∉ r) :
    '=' ∉ name ++ '(' :: r := by
  simp [not_mem_of_callable hname (show isWordChar '=' = false by decide), hequals]

/-- No sign of arithmetic is in a name or opens a bracket. -/
theorem not_mem_of_isOperatorSign (hname : isCallable name = true) {sep : Char}
    (hsep : isOperatorSign sep = true) : sep ∉ name ++ ['('] := by
  have hword : isWordChar sep = false ∧ sep ≠ '(' := by
    simp only [isOperatorSign, Bool.or_eq_true, beq_iff_eq] at hsep
    rcases hsep with ((rfl | rfl) | rfl) | rfl <;> decide
  simp [not_mem_of_callable hname hword.1, hword.2]

/-- A text without equals signs and signs of arithmetic, once trimmed, is a call. -/
theorem Expr.ofText_named (hname : isCallable name = true) {s r : List Char}
    (htrim : trim s = name ++ '(' :: r) (hequals : '=' ∉ r) (hsigns : Signless r) :
    Expr.ofText s = .call { name := String.ofList name, arguments := argumentsOf r } := by
  have hcases := Expr.ofText_cases (s := s) (by rw [htrim]; exact not_isReturn_named hname r)
    (by rw [htrim]; exact not_mem_equals_named hname hequals)
  rw [htrim] at hcases
  rcases hcases with ⟨-, hatom⟩ | ⟨sep, op, hsep, hmem, -⟩
  · rw [hatom, Expr.ofAtom_named hname]
  · rw [List.append_cons, List.mem_append] at hmem
    rcases hmem with hmem | hmem
    · exact absurd hmem (not_mem_of_isOperatorSign hname hsep)
    · rw [hsigns sep hmem] at hsep
      cases hsep

/-- The first piece of a cut text is a beginning of it. -/
theorem exists_first_piece (sep : Char) (r : List Char) :
    ∃ first others, pieces sep r = first :: others ∧ first <+: r := by
  cases hpieces : pieces sep r with
  | nil => exact absurd hpieces (pieces_ne_nil sep r)
  | cons first others =>
      refine ⟨first, others, rfl, ?_⟩
      rw [← glue_pieces sep r, hpieces]
      cases others with
      | nil => exact List.prefix_refl _
      | cons next others => exact List.prefix_append _ _

/-- Cutting a text that begins with a name and a bracket at a sign of arithmetic leaves them in its
first piece. -/
theorem exists_first_piece_named (hname : isCallable name = true) {sep : Char}
    (hsep : isOperatorSign sep = true) (r : List Char) :
    ∃ first others, pieces sep (name ++ '(' :: r) = (name ++ '(' :: first) :: others ∧
      first <+: r := by
  obtain ⟨first, others, hpieces, hfirst⟩ := exists_first_piece sep r
  have hnot : ∀ c ∈ name ++ ['('], c ≠ sep := by
    intro c hc heq
    exact not_mem_of_isOperatorSign hname hsep (heq ▸ hc)
  exact ⟨first, others, by simpa using pieces_append hnot hpieces, hfirst⟩

/-- **The leftmost leaf.**  An expression that is written as a name and a bracket begins with a call
of that name, with arguments from before the first sign of arithmetic. -/
theorem Expr.begins_ofText (hname : isCallable name = true) {r : List Char} (hequals : '=' ∉ r) :
    ∃ r', r' <+: r ∧ Signless r' ∧ (Expr.ofText (name ++ '(' :: r)).Begins
      { name := String.ofList name, arguments := argumentsOf r' } := by
  -- Every cut leaves the name and the bracket in the first piece, which is shorter.
  induction hlength : r.length using Nat.strongRecOn generalizing r with
  | ind n ih =>
      obtain ⟨r₁, htrim, hr₁⟩ := exists_trim_named hname r
      have hequals₁ : '=' ∉ r₁ := fun hmem => hequals (hr₁.subset hmem)
      have hcases := Expr.ofText_cases (s := name ++ '(' :: r)
        (by rw [htrim]; exact not_isReturn_named hname r₁)
        (by rw [htrim]; exact not_mem_equals_named hname hequals₁)
      rw [htrim] at hcases
      rcases hcases with ⟨hsigns, hatom⟩ | ⟨sep, op, hsep, hmem, hchain⟩
      · refine ⟨r₁, hr₁, hsigns.mono fun c hc => by simp [hc], ?_⟩
        rw [hatom, Expr.ofAtom_named hname]
        exact .call
      · obtain ⟨first, others, hpieces, hfirst⟩ := exists_first_piece_named hname hsep r₁
        have hstart : first <+: r := hfirst.trans hr₁
        have hshorter : first.length < n := by
          have hpiece := length_lt_of_mem_pieces hmem (hpieces ▸ List.mem_cons_self)
          have hr₁' := hr₁.length_le
          simp only [List.length_append, List.length_cons] at hpiece
          omega
        obtain ⟨r', hr', hsigns, hbegins⟩ :=
          ih _ hshorter (fun hmem => hequals (hstart.subset hmem)) rfl
        refine ⟨r', hr'.trans hstart, hsigns, ?_⟩
        rw [hpieces] at hchain
        rcases hchain with ⟨v, hchain⟩ | hchain
        · rw [hchain]
          exact .chain (.right hbegins) _
        · rw [hchain]
          exact .chain hbegins _

/-! ### Reading -/

/-- The characters that end a statement of plain code, between quotation marks too. -/
def isStatementEnd (c : Char) : Bool :=
  c == ';' || c == '}' || c == ')'

/-- A letter begins a piece of code. -/
theorem Statement.step_fresh_letter {c : Char} (h : isLetter c = true) :
    Statement.fresh.step c = .ok (Statement.continuing (.code (.ofChars [c]))) := by
  have hpush : Draft.push {} c = Draft.ofChars [c] := Draft.push_ofChars [] c
  have hnamed : (Draft.ofChars [c]).named = true := by
    simp [Draft.ofChars, isNaming, h]
  rw [Statement.fresh, Statement.step, Statement.stepCode, hpush, hnamed]
  simp [ne_of_isLetter h (show isLetter '?' = false by decide),
    ne_of_isLetter h (show isLetter ';' = false by decide),
    ne_of_isLetter h (show isLetter '}' = false by decide),
    ne_of_isLetter h (show isLetter ')' = false by decide)]

/-- Plain code with a name in it goes on up to a character that ends it; braces are counted but do
not end it, and neither does a question mark behind an opening bracket. -/
theorem Body.feed_naming (p : Program) (cs : List Char) (hnamed : ∃ x ∈ cs, isNaming x = true)
    {rest : List Char} (hrest : ∀ c ∈ rest, isStatementEnd c = false)
    (hquestion : '(' ∈ cs ∨ '?' ∉ rest) :
    ∃ depth, Body.feed { p with current := .code (.ofChars cs) } rest =
      ({ p with current := .code (.ofChars (cs ++ rest)), depth := depth }, .more) := by
  induction rest generalizing p cs with
  | nil => exact ⟨p.depth, by simp⟩
  | cons c rest ih =>
      obtain ⟨hc, hrest⟩ := List.forall_mem_cons.1 hrest
      simp only [isStatementEnd, Bool.or_eq_false_iff, beq_eq_false_iff_ne] at hc
      have hstep : Statement.step (.code (.ofChars cs)) c =
          .ok (Statement.continuing (.code (.ofChars (cs ++ [c])))) := by
        rw [Statement.step, Statement.stepCode_continuing hc.1.1 hc.1.2 hc.2]
        · intro heq
          exact hquestion.resolve_right (by simp [heq])
        · exact fun _ => hnamed
      have hplan : Body.step { p with current := .code (.ofChars cs) } c = _ :=
        Body.step_of_current hstep
      rw [Body.advance_eq] at hplan
      have hclosed : Body.closedBy { p with current := .code (.ofChars cs) } c = false := by
        simp [Body.closedBy, hc.1.2]
      rw [Body.feed_cons_of_step hplan hclosed]
      obtain ⟨x, hx, hnaming⟩ := hnamed
      obtain ⟨depth, hfeed⟩ := ih { p with depth := braceDepth p.depth c } (cs ++ [c])
        ⟨x, List.mem_append_left _ hx, hnaming⟩ hrest
        (hquestion.imp (List.mem_append_left _) fun hnot hmem => hnot (List.mem_cons_of_mem _ hmem))
      refine ⟨depth, ?_⟩
      rw [List.append_assoc, List.singleton_append] at hfeed
      simpa [Body.taking, Statement.continuing, hclosed] using hfeed

/-- A name, a bracket and text without an end are plain code under way. -/
theorem Body.feed_named (hname : isCallable name = true) {a : List Char}
    (ha : ∀ c ∈ a, isStatementEnd c = false) :
    ∃ depth, Body.fresh.feed (name ++ '(' :: a) =
      ({ Body.fresh with
         current := .code (.ofChars (name ++ '(' :: a))
         depth := depth }, .more) := by
  obtain ⟨first, others, rfl, hletter⟩ := exists_first_letter hname
  have hstart : Body.fresh.feed [first] =
      ({ Body.fresh with current := .code (.ofChars [first]) }, .more) := by
    rw [Body.feed_cons_of_step
      (Body.step_unbraced (Statement.step_fresh_letter hletter) (ne_of_isLetter hletter (by decide))
        (ne_of_isLetter hletter (by decide))) rfl]
    rfl
  have hnamed : isNaming first = true := by
    simp [isNaming, hletter]
  -- The rest of the name has neither an end nor a question mark in it.
  have hothers {c : Char} (hc : isWordChar c = false) : c ∉ others := by
    intro hmem
    exact not_mem_of_callable hname hc (List.mem_cons_of_mem _ hmem)
  have hopening : ∀ c ∈ others ++ ['('], isStatementEnd c = false := by
    intro c hc
    rcases List.mem_append.1 hc with hc | hc
    · have hmark : c ≠ ';' := fun heq => hothers (by decide) (heq ▸ hc)
      have hbrace : c ≠ '}' := fun heq => hothers (by decide) (heq ▸ hc)
      have hbracket : c ≠ ')' := fun heq => hothers (by decide) (heq ▸ hc)
      simp [isStatementEnd, hmark, hbrace, hbracket]
    · rw [List.mem_singleton.1 hc]
      rfl
  have hquestion : '?' ∉ others ++ ['('] := by
    simp [hothers (show isWordChar '?' = false by decide)]
  obtain ⟨depth₁, hopened⟩ := Body.feed_naming Body.fresh [first]
    ⟨first, List.mem_singleton_self _, hnamed⟩ hopening (Or.inr hquestion)
  obtain ⟨depth₂, hread⟩ := Body.feed_naming { Body.fresh with depth := depth₁ }
    ([first] ++ (others ++ ['('])) ⟨first, by simp, hnamed⟩ ha (Or.inl (by simp))
  refine ⟨depth₂, ?_⟩
  have hsplit : first :: others ++ '(' :: a = [first] ++ ((others ++ ['(']) ++ a) := by simp
  rw [hsplit, Body.feed_append_of_more hstart, Body.feed_append_of_more hopened, hread]
  simp

/-- An end after plain code makes a statement of it. -/
theorem Body.step_end {p : Program} {d : Draft} (hcurrent : p.current = .code d)
    (htext : d.text ≠ "") {c : Char} (hc : isStatementEnd c = true) :
    ∃ s d', p.step c = .ok s ∧ s.closed = p.closedBy c ∧
      s.next.statements = p.statements ++ [.action d'] ∧ s.next.current = .fresh ∧
      d'.text.toList = d.text.toList ++ (if c = ')' then [')'] else []) := by
  have hacting : ∃ d', p.current.step c = .ok (Statement.acting d') ∧
      d'.text.toList = d.text.toList ++ (if c = ')' then [')'] else []) := by
    rw [hcurrent]
    simp only [isStatementEnd, Bool.or_eq_true, beq_iff_eq] at hc
    rcases hc with (rfl | rfl) | rfl
    · exact ⟨d, by simp [Statement.step, Statement.stepCode], by simp⟩
    · exact ⟨d, by simp [Statement.step, Statement.stepCode], by simp⟩
    · exact ⟨d.closeCall, by simp [Statement.step, Statement.stepCode], by simp [Draft.closeCall]⟩
  obtain ⟨d', hstep, htext'⟩ := hacting
  have hproper : d'.text ≠ "" := by
    intro hempty
    apply htext
    rw [hempty] at htext'
    apply String.toList_inj.1
    simpa using (List.append_eq_nil_iff.1 htext'.symm).1
  refine ⟨_, d', Body.step_of_current hstep, ?_, ?_, ?_, htext'⟩
  · rw [Body.advance_eq]
  · rw [Body.advance_eq]
    simp [Body.taking, Statement.acting, Statement.isProper, hproper]
  · rw [Body.advance_eq]
    simp [Body.taking, Statement.acting]

/-- What has been read of a plan stays. -/
theorem Body.statements_prefix_feed (p : Program) (text : List Char) :
    p.statements <+: (p.feed text).1.statements := by
  induction text generalizing p with
  | nil => exact List.prefix_refl _
  | cons c text ih =>
      rw [Body.feed_cons]
      split
      · exact List.prefix_refl _
      · rename_i s hstep
        have hfirst := Body.statements_prefix_of_step hstep
        split
        · exact hfirst
        · exact hfirst.trans (ih s.next)

theorem ofChars_named_ne (name a : List Char) : (Draft.ofChars (name ++ '(' :: a)).text ≠ "" := by
  intro hempty
  have hlist := congrArg String.toList hempty
  simp [Draft.ofChars] at hlist

/-- **The first statement** ends at the first character that ends a statement. -/
theorem exists_first_statement (hname : isCallable name = true) {v : List Char}
    (hend : ∃ c ∈ v, isStatementEnd c = true) :
    ∃ d rest r, (Body.fresh.feed (name ++ '(' :: v)).1.statements = .action d :: rest ∧
      d.text.toList = name ++ '(' :: r ∧ (∀ c ∈ r.dropLast, isStatementEnd c = false) ∧
      ∀ c ∈ r, c ∈ v := by
  obtain ⟨c, hfind⟩ := Option.isSome_iff_exists.1 (List.find?_isSome.2 hend)
  obtain ⟨hc, a, b, rfl, ha⟩ := List.find?_eq_some_iff_append.1 hfind
  simp only [Bool.not_eq_true'] at ha
  obtain ⟨depth, hread⟩ := Body.feed_named hname ha
  obtain ⟨s, d, hstep, -, hstatements, -, htext⟩ :=
    Body.step_end (p := { Body.fresh with
      current := .code (.ofChars (name ++ '(' :: a)), depth := depth }) rfl
      (ofChars_named_ne name a) hc
  have hstart : s.next.statements <+:
      (Body.fresh.feed (name ++ '(' :: (a ++ c :: b))).1.statements := by
    have hsplit : name ++ '(' :: (a ++ c :: b) = (name ++ '(' :: a) ++ c :: b := by simp
    rw [hsplit, Body.feed_append_of_more hread, Body.feed_cons, hstep]
    simp only
    split
    · exact List.prefix_refl _
    · exact Body.statements_prefix_feed s.next b
  obtain ⟨rest, hrest⟩ := hstart
  rw [hstatements] at hrest
  refine ⟨d, rest, a ++ (if c = ')' then [')'] else []), hrest.symm, ?_, ?_, ?_⟩
  · rw [htext]
    simp [Draft.ofChars]
  · intro x hx
    split at hx
    · rw [List.dropLast_concat] at hx
      exact ha x hx
    · rw [List.append_nil] at hx
      exact ha x ((List.dropLast_sublist _).subset hx)
  · intro x hx
    split at hx
    · rename_i heq
      simp only [List.mem_append, List.mem_singleton] at hx
      rcases hx with hx | hx
      · simp [hx]
      · simp [hx, heq]
    · simp only [List.append_nil] at hx
      simp [hx]

/-- A call that ends at its closing bracket, with a mark after it, is the only statement. -/
theorem exists_only_statement (hname : isCallable name = true) {u : List Char}
    (hu : ∀ c ∈ u, isStatementEnd c = false) :
    ∃ p d, Body.fresh.feed (name ++ '(' :: (u ++ [')', ';'])) = (p, .more) ∧
      p.statements = [.action d] ∧ d.text.toList = name ++ '(' :: (u ++ [')']) := by
  obtain ⟨depth, hread⟩ := Body.feed_named hname hu
  obtain ⟨s, d, hstep, hclosed, hstatements, hcurrent, htext⟩ :=
    Body.step_end (p := { Body.fresh with
      current := .code (.ofChars (name ++ '(' :: u)), depth := depth }) rfl
      (ofChars_named_ne name u) (show isStatementEnd ')' = true from rfl)
  have hmark : s.next.feed [';'] = (s.next, .more) := by
    have hcode : Statement.code {} = s.next.current := hcurrent.symm
    have hfeed := Body.feed_mark s.next {}
    rw [hcode] at hfeed
    rw [hfeed, ← hcurrent]
    simp [Draft.kept]
  refine ⟨s.next, d, ?_, ?_, ?_⟩
  · have hsplit : name ++ '(' :: (u ++ [')', ';']) = (name ++ '(' :: u) ++ [')', ';'] := by simp
    rw [hsplit, Body.feed_append_of_more hread, Body.feed_cons_of_step hstep (by rw [hclosed]; rfl),
      hmark]
  · simpa [Body.fresh] using hstatements
  · rw [htext]
    simp [Draft.ofChars]

/-! ### What is called -/

/-- The characters at which a text is cut, between quotation marks too: those that end a statement,
the equals sign and the signs of arithmetic. -/
def isCutting (c : Char) : Bool :=
  isStatementEnd c || c == '=' || isOperatorSign c

/-- A call is not taken for the word of a block. -/
theorem isBlockWord_named {d : Draft} {r : List Char} (h : d.text.toList = name ++ '(' :: r) :
    isBlockWord d.text = false := by
  have hne {word : String} (hword : '(' ∉ word.toList) : d.text ≠ word := by
    intro heq
    apply hword
    rw [← heq, h]
    simp
  simp [isBlockWord, hne (show '(' ∉ "if".toList by decide),
    hne (show '(' ∉ "loop".toList by decide)]

/-- **What is called first.**  A text that begins with a name and a bracket and in which a statement
ends begins with a call of that name; no argument has a character in it at which texts are cut. -/
theorem exists_first_call (hname : isCallable name = true) {v : List Char}
    (hend : ∃ c ∈ v, isStatementEnd c = true) (hequals : '=' ∉ v) :
    ∃ d rest q, (Body.fresh.feed (name ++ '(' :: v)).1.statements = .action d :: rest ∧
      isBlockWord d.text = false ∧ (∀ c ∈ q, isCutting c = false) ∧
      (Expr.ofText d.text.toList).Begins
        { name := String.ofList name, arguments := (splitArguments q).map Argument.ofText } := by
  obtain ⟨d, rest, r, hstatements, htext, hends, hmem⟩ := exists_first_statement hname hend
  have hr : '=' ∉ r := fun h => hequals (hmem _ h)
  obtain ⟨r', hstart, hsigns, hbegins⟩ := Expr.begins_ofText hname hr
  refine ⟨d, rest, (trim r').dropLast, hstatements, isBlockWord_named htext, ?_, ?_⟩
  · intro c hc
    have hlast : c ∈ r'.dropLast := mem_dropLast_of_trim hc
    have hr' : c ∈ r' := (List.dropLast_sublist _).subset hlast
    have hne : c ≠ '=' := fun heq => hr (heq ▸ hstart.subset hr')
    simp [isCutting, hends c (mem_dropLast_of_beginning hstart hlast), hne, hsigns c hr']
  · rw [htext]
    exact hbegins

/-- **Texts that are a call.**  Without a character at which texts are cut, everything up to the
closing bracket is one call. -/
theorem reads_as_call (hname : isCallable name = true) {u : List Char}
    (hu : ∀ c ∈ u, isCutting c = false) :
    ∃ p d, Body.fresh.feed (name ++ '(' :: (u ++ [')', ';'])) = (p, .more) ∧
      p.statements = [.action d] ∧ isBlockWord d.text = false ∧
      Expr.ofText d.text.toList =
        .call { name := String.ofList name, arguments := argumentsOf (u ++ [')']) } := by
  simp only [isCutting, Bool.or_eq_false_iff, beq_eq_false_iff_ne] at hu
  obtain ⟨p, d, hread, hstatements, htext⟩ := exists_only_statement hname fun c hc => (hu c hc).1.1
  refine ⟨p, d, hread, hstatements, isBlockWord_named htext, ?_⟩
  have hequals : '=' ∉ u ++ [')'] := by
    have hu' : '=' ∉ u := fun h => (hu _ h).1.2 rfl
    simp [hu']
  have hsigns : Signless (u ++ [')']) := by
    refine Signless.append (fun c hc => (hu c hc).2) ?_
    intro c hc
    rw [List.mem_singleton.1 hc]
    rfl
  rw [htext, Expr.ofText_named hname (trim_named hname u) hequals hsigns]

end

end DronePilot.Plan
