import DronePilot.Proofs.Giving
import DronePilot.Proofs.Padding
import Mathlib.Data.Nat.Digits.Defs

/-!
# Sums, differences and products

An expression is not parsed: it is cut at every plus, the parts at every minus, and their parts at
every times.  For numbers and variables joined by these signs the value is still the one of the
usual grammar, in which times binds tighter and plus and minus associate to the left: a sum of
differences of products, where a difference ends at the next plus.

* `OperandText`, `ProductText`, `SumText` — the usual grammar, with values.
* `SumText.parts`, `ProductText.parts` — what the cuts find in the texts of the grammar.
* `HasDigits.readWhole`, `OperandText.worth` — numbers and variables.
* `joined_operands_reckon` — operands joined by signs have the value that the grammar gives them.
-/

namespace DronePilot.Plan

open DronePilot.Text DronePilot.Decimal

variable {σ : Type} {bindings : Variables} {s t text : List Char} {m n : Int}

/-- The characters are decimal digits, of any script, with these values. -/
def HasDigits : List Char → List Nat → Prop :=
  List.Forall₂ fun c d => digitValue? c = some d

/-- An operand with its value, and blanks around it: a number in decimal digits, or a variable, a
low line with letters and digits behind it, that is bound to a whole number. -/
inductive OperandText (bindings : Variables) : List Char → Int → Prop
  | numeral {lead chars trail : List Char} {digits : List Nat} (hlead : Blanks lead)
      (hdigits : HasDigits chars digits) (hsome : digits ≠ [])
      (hmax : digits.length ≤ maxDigits) (htrail : Blanks trail) :
      OperandText bindings (lead ++ chars ++ trail) (Nat.ofDigits 10 digits.reverse : Nat)
  | named {lead word trail : List Char} {n : Int} (hlead : Blanks lead)
      (hword : ∀ c ∈ word, (isLetter c || isDigitSign c) = true)
      (hfind : bindings.find? (String.ofList ('_' :: word)) = some (.int n))
      (htrail : Blanks trail) : OperandText bindings (lead ++ '_' :: word ++ trail) n

/-- A product of operands, with its value. -/
inductive ProductText (bindings : Variables) : List Char → Int → Prop
  | operand {t : List Char} {n : Int} (h : OperandText bindings t n) : ProductText bindings t n
  | times {s t : List Char} {m n : Int} (hs : ProductText bindings s m)
      (ht : OperandText bindings t n) : ProductText bindings (s ++ '*' :: t) (m * n)

/-- Products added and subtracted from left to right, with the value of the whole. -/
inductive SumText (bindings : Variables) : List Char → Int → Prop
  | product {t : List Char} {n : Int} (h : ProductText bindings t n) : SumText bindings t n
  | plus {s t : List Char} {m n : Int} (hs : SumText bindings s m)
      (ht : ProductText bindings t n) : SumText bindings (s ++ '+' :: t) (m + n)
  | minus {s t : List Char} {m n : Int} (hs : SumText bindings s m)
      (ht : ProductText bindings t n) : SumText bindings (s ++ '-' :: t) (m - n)

/-- Operands joined by signs, in any order. -/
inductive Joined (bindings : Variables) : List Char → Prop
  | operand {t : List Char} {n : Int} (h : OperandText bindings t n) : Joined bindings t
  | join {s t : List Char} {sign : Char} {n : Int} (hs : Joined bindings s)
      (hsign : sign ∈ ['+', '-', '*']) (ht : OperandText bindings t n) :
      Joined bindings (s ++ sign :: t)

/-! ### Digits -/

/-- Whatever has a value as a digit is a digit. -/
theorem isDigitSign_of_digitValue? {c : Char} {d : Nat} (h : digitValue? c = some d) :
    isDigitSign c = true := by
  unfold isDigitSign
  split
  · rename_i hascii
    rw [digitValue?, if_pos hascii] at h
    split at h
    · assumption
    · cases h
  · rw [h]
    rfl

/-- The value of a digit is below ten. -/
theorem lt_ten_of_digitValue? {c : Char} {d : Nat} (h : digitValue? c = some d) : d < 10 := by
  unfold digitValue? at h
  split at h
  · split at h
    · rename_i hdigit
      have hc := toNat_of_isDigit hdigit
      cases h
      omega
    · cases h
  · obtain ⟨base, hbase, rfl⟩ := Option.map_eq_some_iff.1 h
    have hrange := List.find?_some hbase
    simp only [Bool.and_eq_true, decide_eq_true_eq] at hrange
    omega

/-- A digit of any script is written in ASCII as the digit of its value. -/
theorem toAscii_of_digitValue? {c : Char} {d : Nat} (h : digitValue? c = some d) :
    toAscii c = Nat.digitChar d := by
  by_cases hascii : c.toNat < 128
  · rw [digitValue?, if_pos hascii] at h
    split at h
    · rename_i hdigit
      cases h
      rw [toAscii_of_isDigit hdigit]
      have hcodes : ∀ k, k < 10 → Char.ofNat (48 + k) = Nat.digitChar k := by decide
      have hc := toNat_of_isDigit hdigit
      rw [← hcodes (c.toNat - 48) (by omega), Nat.add_sub_cancel' hc.1, Char.ofNat_toNat]
    · cases h
  · have hblank := isBlank_of_isWordChar (isWordChar_of_isDigitSign (isDigitSign_of_digitValue? h))
    rw [toAscii, if_neg (by omega), hblank, h]
    rfl

/-- The value of a list of digits, the first one being the highest. -/
theorem valueOf_eq_ofDigits (digits : List Nat) :
    valueOf digits = Nat.ofDigits 10 digits.reverse := by
  induction digits using List.reverseRecOn with
  | nil => rfl
  | append_singleton digits d ih =>
      rw [List.reverse_append, List.reverse_singleton, List.singleton_append, Nat.ofDigits_cons,
        ← ih, valueOf, List.foldl_append, List.foldl_cons, List.foldl_nil, valueOf, Nat.add_comm]

namespace HasDigits

variable {chars : List Char} {digits : List Nat}

/-- All characters are digits. -/
theorem isDigitSign (h : HasDigits chars digits) : ∀ c ∈ chars, isDigitSign c = true := by
  induction h with
  | nil => exact List.forall_mem_nil _
  | cons hc _ ih => exact List.forall_mem_cons.2 ⟨isDigitSign_of_digitValue? hc, ih⟩

/-- So they are characters of words. -/
theorem isWordChar (h : HasDigits chars digits) : ∀ c ∈ chars, isWordChar c = true :=
  fun c hc => isWordChar_of_isDigitSign (h.isDigitSign c hc)

/-- All the digits are below ten. -/
theorem lt_ten (h : HasDigits chars digits) : ∀ d ∈ digits, d < 10 := by
  induction h with
  | nil => exact List.forall_mem_nil _
  | cons hc _ ih => exact List.forall_mem_cons.2 ⟨lt_ten_of_digitValue? hc, ih⟩

/-- In ASCII the characters are the ones for these digits. -/
theorem map_toAscii (h : HasDigits chars digits) :
    chars.map toAscii = digits.map Nat.digitChar := by
  induction h with
  | nil => rfl
  | cons hc _ ih => rw [List.map_cons, List.map_cons, toAscii_of_digitValue? hc, ih]

/-- **Numbers are read from the digits of any script**, if there are no more of them than
allowed. -/
theorem readWhole (h : HasDigits chars digits) (hsome : digits ≠ [])
    (hmax : digits.length ≤ maxDigits) :
    Decimal.readWhole chars = .ok (Nat.ofDigits 10 digits.reverse : Nat) := by
  have hchar : ∀ d, d < 10 → (Nat.digitChar d).isDigit = true ∧
      (Nat.digitChar d).toNat - 48 = d := by decide
  have hdigit : ∀ c ∈ digits.map Nat.digitChar, c.isDigit = true := by
    intro c hc
    obtain ⟨d, hd, rfl⟩ := List.mem_map.1 hc
    exact (hchar d (h.lt_ten d hd)).1
  have hvalues : (digits.map Nat.digitChar).map (fun c => c.toNat - 48) = digits := by
    rw [List.map_map]
    conv => rhs; rw [← List.map_id digits]
    exact List.map_congr_left fun d hd => (hchar d (h.lt_ten d hd)).2
  have hbare : bareNumeral chars = digits.map Nat.digitChar := by
    rw [bareNumeral, h.map_toAscii]
    exact trimWhere_eq_self fun c hc => isAsciiBlank_of_isDigit (hdigit c hc)
  have hread : readDigits (digits.map Nat.digitChar) = some digits := by
    rw [readDigits, readDigitsFrom_digits hdigit false (Or.inl (by simpa using hsome)), hvalues]
  rw [Decimal.readWhole, hbare, takeSign_digits hdigit]
  simp only [hread]
  rw [if_neg (by omega), valueOf_eq_ofDigits, if_neg Bool.false_ne_true]

/-- The characters are read as the number that has these digits, unless there are too many. -/
theorem literal (h : HasDigits chars digits) (hsome : digits ≠ [])
    (hmax : digits.length ≤ maxDigits) :
    Plan.literal chars = .ok (.int (Nat.ofDigits 10 digits.reverse : Nat)) := by
  have hdigits : isDigitText chars = true := by
    have hsigns := h.isDigitSign
    cases h with
    | nil => exact absurd rfl hsome
    | cons _ _ => simpa [isDigitText] using hsigns
  rw [Plan.literal, if_pos hdigits, wholeLiteral, h.readWhole hsome hmax]
  rfl

end HasDigits

/-! ### The grammar -/

/-- A further factor belongs to the last product. -/
theorem SumText.times (hs : SumText bindings s m) (ht : OperandText bindings t n) :
    ∃ k, SumText bindings (s ++ '*' :: t) k := by
  cases hs with
  | product hp => exact ⟨_, .product (hp.times ht)⟩
  | plus hs hp =>
      rw [List.append_assoc, List.cons_append]
      exact ⟨_, hs.plus (hp.times ht)⟩
  | minus hs hp =>
      rw [List.append_assoc, List.cons_append]
      exact ⟨_, hs.minus (hp.times ht)⟩

/-- Every joined text is a sum. -/
theorem Joined.exists_sum (h : Joined bindings text) : ∃ n, SumText bindings text n := by
  induction h with
  | operand h => exact ⟨_, .product (.operand h)⟩
  | join _ hsign ht ih =>
      obtain ⟨m, hm⟩ := ih
      simp only [List.mem_cons, List.not_mem_nil, or_false] at hsign
      rcases hsign with rfl | rfl | rfl
      · exact ⟨_, hm.plus (.operand ht)⟩
      · exact ⟨_, hm.minus (.operand ht)⟩
      · exact hm.times ht

/-- The name of a variable consists of characters of words. -/
theorem isWordChar_of_named {word : List Char}
    (h : ∀ c ∈ word, (isLetter c || isDigitSign c) = true) :
    ∀ c ∈ '_' :: word, isWordChar c = true := by
  rw [List.forall_mem_cons]
  refine ⟨by decide, fun c hc => ?_⟩
  rcases Bool.or_eq_true_iff.1 (h c hc) with hletter | hdigit
  · exact isWordChar_of_isLetter hletter
  · exact isWordChar_of_isDigitSign hdigit

/-- No sign is in an operand. -/
theorem OperandText.not_mem (h : OperandText bindings text n) {c : Char}
    (hblank : isBlank c = false) (hword : isWordChar c = false) : c ∉ text := by
  have hnone {lead body trail : List Char} (hlead : Blanks lead) (htrail : Blanks trail)
      (hbody : ∀ x ∈ body, isWordChar x = true) : c ∉ lead ++ body ++ trail := by
    rw [List.mem_append, List.mem_append, not_or, not_or]
    refine ⟨⟨hlead.not_mem hblank, fun hmem => ?_⟩, htrail.not_mem hblank⟩
    rw [hbody c hmem] at hword
    cases hword
  cases h with
  | numeral hlead hdigits _ _ htrail => exact hnone hlead htrail hdigits.isWordChar
  | named hlead hletters _ htrail => exact hnone hlead htrail (isWordChar_of_named hletters)

/-- A product has no other characters than words, blanks and stars. -/
theorem ProductText.not_mem (h : ProductText bindings text n) {c : Char}
    (hblank : isBlank c = false) (hword : isWordChar c = false) (htimes : c ≠ '*') : c ∉ text := by
  induction h with
  | operand h => exact h.not_mem hblank hword
  | times _ ht ih =>
      rw [List.mem_append, List.mem_cons, not_or, not_or]
      exact ⟨ih, htimes, ht.not_mem hblank hword⟩

/-- A sum has plus and minus signs besides. -/
theorem SumText.not_mem (h : SumText bindings text n) {c : Char} (hblank : isBlank c = false)
    (hword : isWordChar c = false) (htimes : c ≠ '*') (hplus : c ≠ '+') (hminus : c ≠ '-') :
    c ∉ text := by
  induction h with
  | product h => exact h.not_mem hblank hword htimes
  | plus _ ht ih =>
      rw [List.mem_append, List.mem_cons, not_or, not_or]
      exact ⟨ih, hplus, ht.not_mem hblank hword htimes⟩
  | minus _ ht ih =>
      rw [List.mem_append, List.mem_cons, not_or, not_or]
      exact ⟨ih, hminus, ht.not_mem hblank hword htimes⟩

/-! ### What the cuts find -/

/-- Cutting at a separator cuts both sides on their own. -/
theorem pieces_append_sep_append (sep : Char) (s t : List Char) :
    pieces sep (s ++ sep :: t) = pieces sep s ++ pieces sep t := by
  induction s with
  | nil =>
      have hsep : pieces sep (sep :: t) = [] :: pieces sep t := by rw [pieces, if_pos rfl]
      exact hsep
  | cons c s ih =>
      rw [List.cons_append, pieces, pieces, ih]
      by_cases hc : c = sep
      · rw [if_pos hc, if_pos hc, List.cons_append]
      · rw [if_neg hc, if_neg hc]
        cases hs : pieces sep s with
        | nil => exact absurd hs (pieces_ne_nil sep s)
        | cons first rest => rfl

/-- An end without separators belongs to the last piece. -/
theorem exists_pieces_append {sep : Char} {t : List Char} (ht : sep ∉ t) (s : List Char) :
    ∃ before last, pieces sep s = before ++ [last] ∧
      pieces sep (s ++ t) = before ++ [last ++ t] := by
  induction s with
  | nil => exact ⟨[], [], rfl, pieces_of_not_mem ht⟩
  | cons c s ih =>
      obtain ⟨before, last, hs, hst⟩ := ih
      rw [List.cons_append, pieces, pieces, hs, hst]
      by_cases hc : c = sep
      · rw [if_pos hc, if_pos hc]
        exact ⟨[] :: before, last, rfl, rfl⟩
      · rw [if_neg hc, if_neg hc]
        cases before with
        | nil => exact ⟨[], c :: last, rfl, rfl⟩
        | cons first before => exact ⟨(c :: first) :: before, last, rfl, rfl⟩

theorem forall₂_concat {α β : Type} {R : α → β → Prop} {xs : List α} {x : α} {ys : List β}
    (h : List.Forall₂ R (xs ++ [x]) ys) :
    ∃ before y, ys = before ++ [y] ∧ List.Forall₂ R xs before ∧ R x y := by
  induction xs generalizing ys with
  | nil =>
      cases h with
      | cons hx hnil =>
          cases hnil
          exact ⟨[], _, rfl, .nil, hx⟩
  | cons a xs ih =>
      cases h with
      | @cons _ b _ _ ha hrest =>
          obtain ⟨before, y, rfl, hxs, hx⟩ := ih hrest
          exact ⟨b :: before, y, rfl, .cons ha hxs, hx⟩

/-- Cut at its times signs, a product falls into its factors. -/
theorem ProductText.parts (h : ProductText bindings text n) :
    ∃ ns, List.Forall₂ (OperandText bindings) (pieces '*' text) ns ∧ ns.foldl (· * ·) 1 = n := by
  induction h with
  | @operand t n h =>
      refine ⟨[n], ?_, by simp⟩
      rw [pieces_of_not_mem (h.not_mem (by decide) (by decide))]
      exact .cons h .nil
  | @times s t m n _ ht ih =>
      obtain ⟨ns, hns, hm⟩ := ih
      refine ⟨ns ++ [n], ?_, by simp [hm]⟩
      rw [pieces_append_sep_append, pieces_of_not_mem (ht.not_mem (by decide) (by decide))]
      exact List.rel_append hns (.cons ht .nil)

/-- The text, cut at its minus signs, falls into products whose difference is the value. -/
def Difference (bindings : Variables) (text : List Char) (n : Int) : Prop :=
  ∃ first rest, List.Forall₂ (ProductText bindings) (pieces '-' text) (first :: rest) ∧
    rest.foldl (· - ·) first = n

/-- A product is a difference with nothing taken away. -/
theorem ProductText.difference (h : ProductText bindings text n) : Difference bindings text n := by
  refine ⟨n, [], ?_, rfl⟩
  rw [pieces_of_not_mem (h.not_mem (by decide) (by decide) (by decide))]
  exact .cons h .nil

/-- Taking away one more product. -/
theorem Difference.minus (hs : Difference bindings s m) (ht : ProductText bindings t n) :
    Difference bindings (s ++ '-' :: t) (m - n) := by
  obtain ⟨first, rest, hproducts, hm⟩ := hs
  refine ⟨first, rest ++ [n], ?_, by simp [hm]⟩
  rw [pieces_append_sep_append,
    pieces_of_not_mem (ht.not_mem (by decide) (by decide) (by decide))]
  exact List.rel_append hproducts (.cons ht .nil)

/-- Cut at its plus signs, a sum falls into differences: what is subtracted is subtracted from what
stands before it up to the plus. -/
theorem SumText.parts (h : SumText bindings text n) :
    ∃ ns, List.Forall₂ (Difference bindings) (pieces '+' text) ns ∧ ns.foldl (· + ·) 0 = n := by
  have hone {t : List Char} {n : Int} (ht : ProductText bindings t n) :
      List.Forall₂ (Difference bindings) (pieces '+' t) [n] := by
    rw [pieces_of_not_mem (ht.not_mem (by decide) (by decide) (by decide))]
    exact .cons ht.difference .nil
  induction h with
  | @product t n h => exact ⟨[n], hone h, by simp⟩
  | @plus s t m n _ ht ih =>
      obtain ⟨ns, hns, hm⟩ := ih
      refine ⟨ns ++ [n], ?_, by simp [hm]⟩
      rw [pieces_append_sep_append]
      exact List.rel_append hns (hone ht)
  | @minus s t m n _ ht ih =>
      obtain ⟨ns, hns, hm⟩ := ih
      have hplus : '+' ∉ '-' :: t := by
        rw [List.mem_cons, not_or]
        exact ⟨by decide, ht.not_mem (by decide) (by decide) (by decide)⟩
      obtain ⟨before, last, hs, hst⟩ := exists_pieces_append hplus s
      rw [hs] at hns
      obtain ⟨values, v, rfl, hbefore, hlast⟩ := forall₂_concat hns
      refine ⟨values ++ [v - n], ?_, ?_⟩
      · rw [hst]
        exact List.rel_append hbefore (.cons (hlast.minus ht) .nil)
      · simp only [List.foldl_append, List.foldl_cons, List.foldl_nil] at hm ⊢
        omega

/-! ### The value of an expression -/

/-- Evaluating the expression gives a whole number, and does nothing. -/
def Expr.IsWorth (call : Call → Run σ Result) (scope : Scope σ) (e : Expr) (n : Int) : Prop :=
  (e.eval call).exec scope = (.ok (.ofValue (.int n)), scope)

section

variable {call : Call → Run σ Result} {scope : Scope σ}

/-- An operator on whole numbers is worth what it computes from the worth of its operands. -/
theorem Expr.isWorth_binary {op : Operator} {f : Int → Int → Int}
    (hop : ∀ a b, op.apply (.int a) (.int b) = .ok (.int (f a b))) {left right : Expr}
    (hleft : left.IsWorth call scope m) (hright : right.IsWorth call scope n) :
    (Expr.binary op left right).IsWorth call scope (f m n) := by
  rw [Expr.IsWorth, Expr.eval, Run.exec_bind_ok hleft, Run.exec_bind_ok hright]
  simp only [Result.ofValue, hop]
  rw [Run.exec_bind_ok (Run.exec_lift_ok _ scope), Run.exec_pure]

/-- Operands applied from left to right. -/
theorem Expr.isWorth_chain {op : Operator} {f : Int → Int → Int}
    (hop : ∀ a b, op.apply (.int a) (.int b) = .ok (.int (f a b))) {start : Expr}
    {operands : List Expr} {ns : List Int} (hstart : start.IsWorth call scope m)
    (h : List.Forall₂ (Expr.IsWorth call scope) operands ns) :
    (Expr.chain op start operands).IsWorth call scope (ns.foldl f m) := by
  induction h generalizing start m with
  | nil => exact hstart
  | cons he _ ih => exact ih (Expr.isWorth_binary hop hstart he)

/-- Blanks at the ends of a text go to its first and its last piece, and do not count there. -/
theorem map_ofText_pieces_trim {sep : Char} (hsep : isBlank sep = false) (s : List Char) :
    (pieces sep (trim s)).map Expr.ofText = (pieces sep s).map Expr.ofText := by
  obtain ⟨lead, trail, hs, hlead, htrail⟩ := exists_trim s
  have hnone {b : List Char} (hb : ∀ c ∈ b, isBlank c = true) : ∀ c ∈ b, c ≠ sep :=
    fun c hc => ne_of_isBlank (hb c hc) hsep
  obtain ⟨before, last, hpieces, htrailed⟩ :=
    exists_pieces_append (fun hmem => hnone htrail sep hmem rfl) (trim s)
  have hlast : Expr.ofText (last ++ trail) = Expr.ofText last :=
    Expr.ofText_congr (trimWhere_append_right htrail last)
  have hmap : (pieces sep (trim s ++ trail)).map Expr.ofText =
      (pieces sep (trim s)).map Expr.ofText := by
    rw [htrailed, hpieces, List.map_append, List.map_append, List.map_singleton,
      List.map_singleton, hlast]
  conv => rhs; rw [hs, List.append_assoc]
  rw [← hmap]
  cases hcut : pieces sep (trim s ++ trail) with
  | nil => exact absurd hcut (pieces_ne_nil _ _)
  | cons first others =>
      have hfirst : Expr.ofText (lead ++ first) = Expr.ofText first :=
        Expr.ofText_congr (trimWhere_append_left hlead first)
      rw [pieces_append (hnone hlead) hcut, List.map_cons, List.map_cons, hfirst]

/-- The text neither returns nor assigns. -/
def Computes (s : List Char) : Prop :=
  '>' ∉ s ∧ '=' ∉ s

/-- The pieces of a text that computes compute. -/
theorem Computes.of_mem_pieces (h : Computes s) {sep : Char} (ht : t ∈ pieces sep s) :
    Computes t :=
  ⟨fun hmem => h.1 (mem_of_mem_pieces ht hmem), fun hmem => h.2 (mem_of_mem_pieces ht hmem)⟩

/-- A text with a plus sign is read as a sum of its pieces. -/
theorem Expr.ofText_sum (h : Computes s) (hplus : '+' ∈ s) :
    Expr.ofText s = .chain .add (.const (.int 0)) ((pieces '+' s).map Expr.ofText) := by
  rw [Expr.ofText]
  simp only [List.attach_map_val]
  rw [dif_neg (not_isReturn_of_not_mem h.1), dif_neg (mt (mem_trim_iff rfl).1 h.2),
    dif_pos ((mem_trim_iff rfl).2 hplus), map_ofText_pieces_trim rfl]

/-- Without one, a text with a minus sign is read as the first piece less all others. -/
theorem Expr.ofText_difference (h : Computes s) (hplus : '+' ∉ s) (hminus : '-' ∈ s) :
    Expr.ofText s = .chainFirst .sub ((pieces '-' s).map Expr.ofText) := by
  rw [Expr.ofText]
  simp only [List.attach_map_val]
  rw [dif_neg (not_isReturn_of_not_mem h.1), dif_neg (mt (mem_trim_iff rfl).1 h.2),
    dif_neg (mt (mem_trim_iff rfl).1 hplus), dif_pos ((mem_trim_iff rfl).2 hminus),
    map_ofText_pieces_trim rfl]

/-- With neither, a text with a star is read as a product of its pieces. -/
theorem Expr.ofText_product (h : Computes s) (hplus : '+' ∉ s) (hminus : '-' ∉ s)
    (htimes : '*' ∈ s) :
    Expr.ofText s = .chain .mul (.const (.int 1)) ((pieces '*' s).map Expr.ofText) := by
  rw [Expr.ofText]
  simp only [List.attach_map_val]
  rw [dif_neg (not_isReturn_of_not_mem h.1), dif_neg (mt (mem_trim_iff rfl).1 h.2),
    dif_neg (mt (mem_trim_iff rfl).1 hplus), dif_neg (mt (mem_trim_iff rfl).1 hminus),
    dif_pos ((mem_trim_iff rfl).2 htimes), map_ofText_pieces_trim rfl]

/-- Evaluating the text gives a whole number, and does nothing. -/
def Worth (call : Call → Run σ Result) (scope : Scope σ) (text : List Char) (n : Int) : Prop :=
  (Expr.ofText text).IsWorth call scope n

/-- A text without the sign at which it would be cut is the only piece. -/
theorem worth_of_single {sep : Char} (h : sep ∉ text) {ns : List Int}
    (hpieces : List.Forall₂ (Worth call scope) (pieces sep text) ns) :
    ∃ n, ns = [n] ∧ Worth call scope text n := by
  rw [pieces_of_not_mem h] at hpieces
  cases hpieces with
  | cons hworth hnil =>
      cases hnil
      exact ⟨_, rfl, hworth⟩

/-- A sum is worth the sum of what its pieces are worth. -/
theorem worth_sum (h : Computes text) {ns : List Int}
    (hpieces : List.Forall₂ (Worth call scope) (pieces '+' text) ns) :
    Worth call scope text (ns.foldl (· + ·) 0) := by
  by_cases hplus : '+' ∈ text
  · rw [Worth, Expr.ofText_sum h hplus]
    have hstart : (Expr.const (.int 0)).IsWorth call scope 0 := rfl
    exact Expr.isWorth_chain (fun _ _ => rfl) hstart (List.forall₂_map_left_iff.2 hpieces)
  · obtain ⟨n, rfl, hn⟩ := worth_of_single hplus hpieces
    simpa using hn

/-- A difference is worth the first piece less the others. -/
theorem worth_difference (h : Computes text) (hplus : '+' ∉ text) {first : Int} {ns : List Int}
    (hpieces : List.Forall₂ (Worth call scope) (pieces '-' text) (first :: ns)) :
    Worth call scope text (ns.foldl (· - ·) first) := by
  by_cases hminus : '-' ∈ text
  · rw [Worth, Expr.ofText_difference h hplus hminus]
    cases hcut : pieces '-' text with
    | nil => exact absurd hcut (pieces_ne_nil _ _)
    | cons head rest =>
        rw [hcut] at hpieces
        cases hpieces with
        | cons hhead hrest =>
            exact Expr.isWorth_chain (fun _ _ => rfl) hhead (List.forall₂_map_left_iff.2 hrest)
  · obtain ⟨n, heq, hn⟩ := worth_of_single hminus hpieces
    cases heq
    exact hn

/-- A product is worth the product of what its pieces are worth. -/
theorem worth_product (h : Computes text) (hplus : '+' ∉ text) (hminus : '-' ∉ text)
    {ns : List Int} (hpieces : List.Forall₂ (Worth call scope) (pieces '*' text) ns) :
    Worth call scope text (ns.foldl (· * ·) 1) := by
  by_cases htimes : '*' ∈ text
  · rw [Worth, Expr.ofText_product h hplus hminus htimes]
    have hstart : (Expr.const (.int 1)).IsWorth call scope 1 := rfl
    exact Expr.isWorth_chain (fun _ _ => rfl) hstart (List.forall₂_map_left_iff.2 hpieces)
  · obtain ⟨n, rfl, hn⟩ := worth_of_single htimes hpieces
    simpa using hn

/-! ### Operands -/

/-- A word is an atom. -/
theorem Expr.ofText_word (h : ∀ c ∈ s, isWordChar c = true) : Expr.ofText s = .ofAtom s := by
  have hnone {c : Char} (hc : isWordChar c = false) : c ∉ s := by
    intro hmem
    rw [h c hmem] at hc
    cases hc
  have htrim : trim s = s := trimWhere_eq_self fun c hc => isBlank_of_isWordChar (h c hc)
  have hreturn : ¬isReturn (trim s) = true := not_isReturn_of_not_mem (hnone (by decide))
  have hequals : '=' ∉ trim s := mt (mem_trim_iff rfl).1 (hnone (by decide))
  rcases Expr.ofText_cases hreturn hequals with ⟨-, hatom⟩ | ⟨sep, op, hsep, hmem, -⟩
  · rw [hatom, htrim]
  · have hword : isWordChar sep = false := by
      simp only [isOperatorSign, Bool.or_eq_true, beq_iff_eq] at hsep
      rcases hsep with ((rfl | rfl) | rfl) | rfl <;> decide
    exact absurd (mem_of_mem_trim hmem) (hnone hword)

/-- An operand is worth its value. -/
theorem OperandText.worth (h : OperandText scope.bindings text n) : Worth call scope text n := by
  cases h with
  | @numeral lead chars trail digits hlead hdigits hsome hmax htrail =>
      have hatom : Expr.ofAtom chars = .literal chars := by
        cases hdigits with
        | nil => exact absurd rfl hsome
        | @cons c d cs ds hc hcs =>
            have hnaming := isNaming_of_isDigitSign (isDigitSign_of_digitValue? hc)
            simp only [isNaming, Bool.or_eq_false_iff, beq_eq_false_iff_ne] at hnaming
            simp [Expr.ofAtom, hnaming]
      rw [Worth, Expr.ofText_padded hlead htrail, Expr.ofText_word hdigits.isWordChar,
        hatom, Expr.IsWorth, Expr.eval, hdigits.literal hsome hmax]
      rfl
  | @named lead word trail n hlead hletters hfind htrail =>
      have hatom : Expr.ofAtom ('_' :: word) = .variable (String.ofList ('_' :: word)) := by
        rw [Expr.ofAtom, if_pos rfl]
      rw [Worth, Expr.ofText_padded hlead htrail, Expr.ofText_word (isWordChar_of_named hletters),
        hatom, Expr.IsWorth, Expr.eval, Run.variable, Run.exec_bind,
        Run.exec_bind_ok (Run.exec_get scope), hfind]
      rfl

/-! ### The value of a sum -/

/-- A product of numbers and variables is worth its value. -/
theorem ProductText.worth (h : ProductText scope.bindings text n) : Worth call scope text n := by
  obtain ⟨ns, hparts, rfl⟩ := h.parts
  have hcomputes : Computes text :=
    ⟨h.not_mem (by decide) (by decide) (by decide), h.not_mem (by decide) (by decide) (by decide)⟩
  exact worth_product hcomputes (h.not_mem (by decide) (by decide) (by decide))
    (h.not_mem (by decide) (by decide) (by decide)) (hparts.imp fun _ _ => OperandText.worth)

/-- So is a difference of such products. -/
theorem Difference.worth (h : Difference scope.bindings text n) (hcomputes : Computes text)
    (hplus : '+' ∉ text) : Worth call scope text n := by
  obtain ⟨first, rest, hparts, rfl⟩ := h
  exact worth_difference hcomputes hplus (hparts.imp fun _ _ => ProductText.worth)

/-- **Cutting at the signs gives the value of the usual grammar.** -/
theorem SumText.worth (h : SumText scope.bindings text n) : Worth call scope text n := by
  obtain ⟨ns, hparts, rfl⟩ := h.parts
  have hcomputes : Computes text :=
    ⟨h.not_mem (by decide) (by decide) (by decide) (by decide) (by decide),
      h.not_mem (by decide) (by decide) (by decide) (by decide) (by decide)⟩
  apply worth_sum hcomputes
  have hall : ∀ part ∈ pieces '+' text, Computes part ∧ '+' ∉ part := fun part hpart =>
    ⟨hcomputes.of_mem_pieces hpart, not_mem_of_mem_pieces hpart⟩
  clear h
  generalize pieces '+' text = parts at hparts hall
  induction hparts with
  | nil => exact .nil
  | cons hpart _ ih =>
      obtain ⟨⟨hcomputes, hplus⟩, hrest⟩ := List.forall_mem_cons.1 hall
      exact .cons (hpart.worth hcomputes hplus) (ih hrest)

end

/-- **Joined operands are reckoned as usual.**  A text of numbers and variables joined by plus,
minus and times signs has exactly one value in the grammar where times binds tighter and plus and
minus associate to the left.  Evaluating the text gives this value, asks for no new plan and leaves
the world, the variables and the flag as they were.  It does so whatever calls would do, so none is
made. -/
theorem joined_operands_reckon (call : Call → Run σ Result) (scope : Scope σ)
    (h : Joined scope.bindings text) :
    ∃ n, (∀ m, SumText scope.bindings text m ↔ m = n) ∧
      ((Expr.ofText text).eval call).exec scope = (.ok (.ofValue (.int n)), scope) := by
  obtain ⟨n, hn⟩ := h.exists_sum
  have hworth : Worth call scope text n := hn.worth
  refine ⟨n, fun m => ⟨fun hm => ?_, fun heq => heq ▸ hn⟩, hworth⟩
  have hsame : ((.ok (.ofValue (.int m)), scope) : Except Halt Result × Scope σ) =
      (.ok (.ofValue (.int n)), scope) := by
    rw [← (hm.worth : Worth call scope text m), hworth]
  cases hsame
  rfl

/-- A product and a variable before a minus, and a product behind the plus that follows. -/
theorem joined_operands_reckon_mixed :
    let scope : Scope Nat := { world := 0, bindings := .ofList [("_x", .int 7)] }
    Joined scope.bindings "2 * _x - 3+4*5".toList ∧
      ((Expr.ofText "2 * _x - 3+4*5".toList).eval counter.call).exec scope =
        (.ok (.ofValue (.int 31)), scope) := by
  intro scope
  have hblank : Blanks [' '] := by decide
  have htwo : OperandText scope.bindings "2 ".toList 2 :=
    .numeral blanks_nil (.cons rfl .nil) (List.cons_ne_nil 2 []) (by decide) hblank
  have hletter : ∀ c ∈ ['x'], (isLetter c || isDigitSign c) = true := by simp [isLetter]
  have hx : OperandText scope.bindings " _x ".toList 7 := .named hblank hletter rfl hblank
  have hthree : OperandText scope.bindings " 3".toList 3 :=
    .numeral hblank (.cons rfl .nil) (List.cons_ne_nil 3 []) (by decide) blanks_nil
  have hfour : OperandText scope.bindings "4".toList 4 :=
    .numeral blanks_nil (.cons rfl .nil) (List.cons_ne_nil 4 []) (by decide) blanks_nil
  have hfive : OperandText scope.bindings "5".toList 5 :=
    .numeral blanks_nil (.cons rfl .nil) (List.cons_ne_nil 5 []) (by decide) blanks_nil
  have hjoined : Joined scope.bindings "2 * _x - 3+4*5".toList :=
    ((((Joined.operand htwo).join (by simp : '*' ∈ _) hx).join (by simp : '-' ∈ _) hthree).join
      (by simp : '+' ∈ _) hfour).join (by simp : '*' ∈ _) hfive
  have hsum : SumText scope.bindings "2 * _x - 3+4*5".toList 31 :=
    ((SumText.product ((ProductText.operand htwo).times hx)).minus (.operand hthree)).plus
      ((ProductText.operand hfour).times hfive)
  obtain ⟨n, hvalue, hexec⟩ := joined_operands_reckon counter.call scope hjoined
  rw [(hvalue 31).1 hsum]
  exact ⟨hjoined, hexec⟩

end DronePilot.Plan
