import DronePilot.Proofs.Numeral
import DronePilot.Proofs.Plainness
import Mathlib.Data.List.Forall2

/-!
# Blanks around expressions and comparisons

Spaces and line ends at either end of an expression do not count, and neither do those around the
operands of a comparison, since every operand is trimmed before it is analysed.  Blanks before a
loop count do not count either.  An assignment is cut at its equals sign before anything else is
trimmed, so blanks behind the sign do not count, but blanks before it belong to the name.

* `Expr.ofText_padded` — blanks at the ends of an expression.
* `Expr.ofText_assigned` — blanks on both sides of the equals sign.
* `Condition.ofText_spaced`, `Condition.ofText_indented` — blanks in a condition.
* `wholeLiteral_indented` — blanks before a number.
-/

namespace DronePilot

/-- A comparator as it is written. -/
def Comparator.chars : Comparator → List Char
  | greater => ['>']
  | less => ['<']
  | equal => ['=', '=']
  | unequal => ['!', '=']

end DronePilot

namespace DronePilot.Plan

open DronePilot.Text DronePilot.Decimal

/-- Spaces and line ends. -/
def Blanks (s : List Char) : Prop :=
  ∀ c ∈ s, c = ' ' ∨ c = '\n'

instance (s : List Char) : Decidable (Blanks s) :=
  List.decidableBAll (fun c => c = ' ' ∨ c = '\n') s

theorem blanks_nil : Blanks [] := by simp [Blanks]

/-- Blanks between the parts of a plan are blank to every reader. -/
theorem Blanks.isBlank {b : List Char} (h : Blanks b) : ∀ c ∈ b, isBlank c = true := by
  intro c hc
  rcases h c hc with rfl | rfl <;> rfl

/-- Blanks have none of the characters that are no blanks. -/
theorem Blanks.ne {b : List Char} (h : Blanks b) {c x : Char} (hc : c ∈ b)
    (hx : Text.isBlank x = false) : c ≠ x :=
  ne_of_isBlank (h.isBlank c hc) hx

/-- Blanks hold nothing that is not blank. -/
theorem Blanks.not_mem {b : List Char} (h : Blanks b) {x : Char} (hx : Text.isBlank x = false) :
    x ∉ b :=
  fun hmem => h.ne hmem hx rfl

/-! ### Trimming -/

/-- A part that is dropped whole leaves the rest to be dropped from. -/
theorem dropWhile_append_of_all {p : Char → Bool} {b : List Char} (hb : ∀ c ∈ b, p c = true)
    (s : List Char) : (b ++ s).dropWhile p = s.dropWhile p := by
  induction b with
  | nil => rfl
  | cons c b ih =>
      obtain ⟨hc, hb⟩ := List.forall_mem_cons.1 hb
      rw [List.cons_append, List.dropWhile_cons_of_pos hc, ih hb]

/-- What is trimmed off may stand in front of a text. -/
theorem trimWhere_append_left {p : Char → Bool} {b : List Char} (hb : ∀ c ∈ b, p c = true)
    (s : List Char) : trimWhere p (b ++ s) = trimWhere p s := by
  rw [trimWhere, dropWhile_append_of_all hb, trimWhere]

/-- It may stand behind one as well. -/
theorem trimWhere_append_right {p : Char → Bool} {b : List Char} (hb : ∀ c ∈ b, p c = true)
    (s : List Char) : trimWhere p (s ++ b) = trimWhere p s := by
  have hreverse : ∀ c ∈ b.reverse, p c = true := by simpa using hb
  rw [trimWhere, trimWhere, List.dropWhile_append]
  by_cases hs : (s.dropWhile p).isEmpty = true
  · have hnil : b.dropWhile p = [] := by simpa using dropWhile_append_of_all hb []
    rw [if_pos hs, hnil, List.isEmpty_iff.1 hs]
  · rw [if_neg hs, List.reverse_append, dropWhile_append_of_all hreverse]

/-- Blanks at the ends are trimmed. -/
theorem trim_padded {lead trail : List Char} (hlead : Blanks lead) (htrail : Blanks trail)
    (s : List Char) : trim (lead ++ s ++ trail) = trim s := by
  rw [trim, trimWhere_append_right htrail.isBlank, trimWhere_append_left hlead.isBlank, trim]

/-- Trimming takes nothing but blanks. -/
theorem mem_trim_iff {s : List Char} {c : Char} (hc : isBlank c = false) : c ∈ trim s ↔ c ∈ s := by
  refine ⟨mem_of_mem_trim, fun h => ?_⟩
  obtain ⟨before, after, hs, hbefore, hafter⟩ := exists_trim s
  rw [hs, List.mem_append, List.mem_append] at h
  rcases h with (h | h) | h
  · exact absurd rfl (ne_of_isBlank (hbefore c h) hc)
  · exact h
  · exact absurd rfl (ne_of_isBlank (hafter c h) hc)

/-- From a text that begins with no blank, trimming takes only what stands behind the last such
character. -/
theorem exists_trim_behind {a : List Char} {c : Char} (hfirst : ∀ x, a.head? = some x →
    isBlank x = false) (hc : isBlank c = false) (r : List Char) :
    ∃ r', trim (a ++ c :: r) = a ++ c :: r' ∧ trim r' = trim r ∧ ∀ x ∈ r', x ∈ r := by
  have hfront : (a ++ c :: r).dropWhile isBlank = a ++ c :: r := by
    cases a with
    | nil => exact List.dropWhile_cons_of_neg (by simp [hc])
    | cons x a => exact List.dropWhile_cons_of_neg (by simp [hfirst x rfl])
  refine ⟨(r.reverse.dropWhile isBlank).reverse, ?_, ?_, ?_⟩
  · rw [trim, trimWhere, hfront, List.reverse_append, List.reverse_cons, List.append_assoc,
      List.dropWhile_append]
    by_cases hr : (r.reverse.dropWhile isBlank).isEmpty = true
    · rw [if_pos hr, List.isEmpty_iff.1 hr, List.singleton_append,
        List.dropWhile_cons_of_neg (by simp [hc])]
      simp
    · rw [if_neg hr]
      simp
  · have hsplit := List.takeWhile_append_dropWhile (p := isBlank) (l := r.reverse)
    have hr : r =
        (r.reverse.dropWhile isBlank).reverse ++ (r.reverse.takeWhile isBlank).reverse := by
      rw [← List.reverse_append, hsplit, List.reverse_reverse]
    have hblank : ∀ x ∈ (r.reverse.takeWhile isBlank).reverse, isBlank x = true := by
      intro x hx
      exact List.all_eq_true.1 List.all_takeWhile x (List.mem_reverse.1 hx)
    conv => rhs; rw [hr]
    rw [trim, trim, trimWhere_append_right hblank]
  · intro x hx
    exact List.mem_reverse.1 ((List.dropWhile_suffix _).subset (List.mem_reverse.1 hx))

/-! ### Expressions -/

/-- The analysis of an expression begins by trimming it. -/
theorem Expr.ofText_congr {s t : List Char} (h : trim s = trim t) :
    Expr.ofText s = Expr.ofText t := by
  rw [Expr.ofText.eq_def s, Expr.ofText.eq_def t, h]

/-- An expression reads the same with blanks around it. -/
theorem Expr.ofText_padded {lead trail : List Char} (hlead : Blanks lead) (htrail : Blanks trail)
    (s : List Char) : Expr.ofText (lead ++ s ++ trail) = Expr.ofText s :=
  Expr.ofText_congr (trim_padded hlead htrail s)

/-- Without an angle bracket there is no return. -/
theorem not_isReturn_of_not_mem {s : List Char} (h : '>' ∉ s) : ¬isReturn (trim s) = true := by
  intro hreturn
  unfold isReturn at hreturn
  split at hreturn
  · rename_i rest htrim
    exact h (mem_of_mem_trim (by simp [htrim]))
  · cases hreturn

/-- What can stand before the equals sign of an assignment: a text without equals signs that begins
neither with a blank nor with an arrow. -/
def isAssignable : List Char → Bool
  | [] => false
  | c :: cs => !isBlank c && c != '-' && !(c :: cs).contains '='

/-- A text without the separator is one piece. -/
theorem pieces_of_not_mem {sep : Char} {s : List Char} (h : sep ∉ s) : pieces sep s = [s] := by
  have hs : ∀ c ∈ s, c ≠ sep := fun c hc heq => h (heq ▸ hc)
  simpa using pieces_append hs (show pieces sep [] = [[]] from rfl)

/-- The first piece ends at the first separator. -/
theorem pieces_append_sep {sep : Char} {s : List Char} (h : sep ∉ s) (t : List Char) :
    pieces sep (s ++ sep :: t) = s :: pieces sep t := by
  have hs : ∀ c ∈ s, c ≠ sep := fun c hc heq => h (heq ▸ hc)
  have hsep : pieces sep (sep :: t) = [] :: pieces sep t := by rw [pieces, if_pos rfl]
  simpa using pieces_append hs hsep

/-- **Assignments.**  What stands before the equals sign is the name, with the blanks at its end;
blanks behind the sign do not count. -/
theorem Expr.ofText_assigned {x e b b' : List Char} (hx : isAssignable x = true) (he : '=' ∉ e)
    (hb : Blanks b) (hb' : Blanks b') :
    Expr.ofText (x ++ b ++ '=' :: (b' ++ e)) =
      .assign (String.ofList (x ++ b)) (Expr.ofText e) := by
  cases x with
  | nil => cases hx
  | cons c cs =>
      simp only [isAssignable, Bool.and_eq_true, Bool.not_eq_true', bne_iff_ne] at hx
      obtain ⟨⟨hblank, harrow⟩, hequals⟩ := hx
      have hname : '=' ∉ c :: cs ++ b := by
        rw [List.mem_append, not_or]
        exact ⟨by simpa using hequals, hb.not_mem (by decide)⟩
      obtain ⟨r, htrim, hr, hsub⟩ := exists_trim_behind (a := c :: cs ++ b) (c := '=')
        (by rintro x ⟨⟩; exact hblank) (by decide) (b' ++ e)
      have hrest : '=' ∉ r := by
        intro hmem
        rcases List.mem_append.1 (hsub _ hmem) with hmem | hmem
        · exact hb'.not_mem (by decide) hmem
        · exact he hmem
      have hreturn : ¬isReturn (c :: cs ++ b ++ '=' :: r) = true := by
        intro hreturn
        unfold isReturn at hreturn
        split at hreturn
        · rename_i heq
          exact harrow (List.cons.inj heq).1
        · cases hreturn
      have hpieces : pieces '=' (c :: cs ++ b ++ '=' :: r) = [c :: cs ++ b, r] := by
        rw [pieces_append_sep hname, pieces_of_not_mem hrest]
      have hvalue : Expr.ofText r = Expr.ofText e := by
        apply Expr.ofText_congr
        rw [hr, trim, trimWhere_append_left hb'.isBlank, trim]
      rw [Expr.ofText]
      simp only [htrim]
      rw [dif_neg hreturn, dif_pos (by simp)]
      split
      · rename_i name value heq
        rw [htrim, hpieces] at heq
        cases heq
        rw [hvalue]
      · rename_i hne
        exact absurd (by rw [htrim, hpieces]) (hne (c :: cs ++ b) r)

/-! ### Numbers -/

/-- A whole number is read the same behind blanks. -/
theorem wholeLiteral_indented {b : List Char} (hb : Blanks b) (s : List Char) :
    wholeLiteral (b ++ s) = wholeLiteral s := by
  have hascii : ∀ c ∈ b.map toAscii, isAsciiBlank c = true := by
    intro c hc
    obtain ⟨x, hx, rfl⟩ := List.mem_map.1 hc
    rcases hb x hx with rfl | rfl <;> rfl
  have hbare : bareNumeral (b ++ s) = bareNumeral s := by
    rw [bareNumeral, List.map_append, trimWhere_append_left hascii, bareNumeral]
  rw [wholeLiteral, readWhole, hbare, wholeLiteral, readWhole]

/-! ### Texts with more blanks -/

/-- The second text is the first one with blanks put anywhere into it. -/
inductive Loose : List Char → List Char → Prop
  | nil : Loose [] []
  | keep {s t : List Char} (c : Char) (h : Loose s t) : Loose (c :: s) (c :: t)
  | blank {s t : List Char} {c : Char} (hc : c = ' ' ∨ c = '\n') (h : Loose s t) : Loose s (c :: t)

namespace Loose

variable {s t s' t' : List Char}

/-- No blanks need be put in. -/
theorem refl : (s : List Char) → Loose s s
  | [] => .nil
  | c :: s => .keep c (refl s)

/-- Blanks alone are a loosened empty text. -/
theorem of_blanks {b : List Char} (hb : Blanks b) : Loose [] b := by
  induction b with
  | nil => exact .nil
  | cons c b ih =>
      obtain ⟨hc, hb⟩ := List.forall_mem_cons.1 hb
      exact .blank hc (ih hb)

/-- Texts are loosened one after the other. -/
theorem append (h : Loose s t) (h' : Loose s' t') : Loose (s ++ s') (t ++ t') := by
  induction h with
  | nil => exact h'
  | keep c _ ih => exact .keep c ih
  | blank hc _ ih => exact .blank hc ih

/-- Blanks at the ends. -/
theorem padded (h : Loose s t) {lead trail : List Char} (hlead : Blanks lead)
    (htrail : Blanks trail) : Loose s (lead ++ t ++ trail) := by
  simpa using ((of_blanks hlead).append h).append (of_blanks htrail)

/-- Loosening puts in nothing but spaces and line breaks. -/
theorem mem (h : Loose s t) {c : Char} (hc : c ∈ t) : c ∈ s ∨ c = ' ' ∨ c = '\n' := by
  induction h with
  | nil => cases hc
  | keep x _ ih =>
      rcases List.mem_cons.1 hc with rfl | hc
      · exact Or.inl List.mem_cons_self
      · exact (ih hc).imp_left (List.mem_cons_of_mem _)
  | blank hx _ ih =>
      rcases List.mem_cons.1 hc with rfl | hc
      · exact Or.inr hx
      · exact ih hc

/-- A character that is no blank is not brought in. -/
theorem not_mem (h : Loose s t) {c : Char} (hblank : isBlank c = false) (hc : c ∉ s) : c ∉ t := by
  intro hmem
  rcases h.mem hmem with hmem | rfl | rfl
  · exact hc hmem
  · cases hblank
  · cases hblank

end Loose

/-! ### Comparisons -/

/-- A character that begins no comparator is passed over. -/
theorem cutComparator?_cons {c : Char} {cs : List Char} (hgreater : c ≠ '>') (hless : c ≠ '<')
    (hsign : c = '=' ∨ c = '!' → cs.head? ≠ some '=') :
    cutComparator? (c :: cs) =
      (cutComparator? cs).map fun (before, op, after) => (c :: before, op, after) := by
  rw [cutComparator?.eq_def]
  split
  · rename_i heq
    cases heq
  · rename_i heq
    exact absurd (List.cons.inj heq).1 hgreater
  · rename_i heq
    exact absurd (List.cons.inj heq).1 hless
  · rename_i heq
    obtain ⟨rfl, rfl⟩ := List.cons.inj heq
    exact absurd rfl (hsign (Or.inl rfl))
  · rename_i heq
    obtain ⟨rfl, rfl⟩ := List.cons.inj heq
    exact absurd rfl (hsign (Or.inr rfl))
  · rename_i heq
    obtain ⟨rfl, rfl⟩ := List.cons.inj heq
    rfl

/-- Blanks in front of a comparison stay with its left side. -/
theorem cutComparator?_indented {b : List Char} (hb : Blanks b) (s : List Char) :
    cutComparator? (b ++ s) =
      (cutComparator? s).map fun (left, op, right) => (b ++ left, op, right) := by
  induction b with
  | nil => simp
  | cons c b ih =>
      obtain ⟨hc, hb⟩ := List.forall_mem_cons.1 hb
      have hne : c ≠ '>' ∧ c ≠ '<' ∧ c ≠ '=' ∧ c ≠ '!' := by
        rcases hc with rfl | rfl <;> decide
      obtain ⟨hgreater, hless, hequal, hnot⟩ := hne
      have hsign : c = '=' ∨ c = '!' → (b ++ s).head? ≠ some '=' := by
        rintro (heq | heq)
        · exact absurd heq hequal
        · exact absurd heq hnot
      rw [List.cons_append, cutComparator?_cons hgreater hless hsign, ih hb, Option.map_map]
      rfl

/-- A comparison is its parts with the comparator between them. -/
theorem eq_of_cutComparator? {s left right : List Char} {op : Comparator}
    (h : cutComparator? s = some (left, op, right)) : s = left ++ (op.chars ++ right) := by
  fun_induction cutComparator? s generalizing left right op with
  | case1 => cases h
  | case2 cs => cases h; rfl
  | case3 cs => cases h; rfl
  | case4 cs => cases h; rfl
  | case5 cs => cases h; rfl
  | case6 c cs _ _ _ _ ih =>
      obtain ⟨⟨before, op', after⟩, hcut, hparts⟩ := Option.map_eq_some_iff.1 h
      cases hparts
      rw [ih hcut, List.cons_append]

/-- The first comparator stays the first one if blanks come before it, and whatever is put behind
it. -/
theorem cutComparator?_spaced {s left right : List Char} {op : Comparator}
    (h : cutComparator? s = some (left, op, right)) {b : List Char} (hb : Blanks b)
    (r : List Char) :
    cutComparator? (left ++ (b ++ (op.chars ++ r))) = some (left ++ b, op, r) := by
  have hfirst : ∀ op : Comparator, cutComparator? (b ++ (op.chars ++ r)) = some (b, op, r) := by
    intro op
    have hop : cutComparator? (op.chars ++ r) = some ([], op, r) := by cases op <;> rfl
    rw [cutComparator?_indented hb, hop]
    simp
  fun_induction cutComparator? s generalizing left right op with
  | case1 => cases h
  | case2 cs => cases h; exact hfirst .greater
  | case3 cs => cases h; exact hfirst .less
  | case4 cs => cases h; exact hfirst .equal
  | case5 cs => cases h; exact hfirst .unequal
  | case6 c cs hgreater hless hequal hunequal ih =>
      obtain ⟨⟨before, op', after⟩, hcut, hparts⟩ := Option.map_eq_some_iff.1 h
      cases hparts
      have hcs := eq_of_cutComparator? hcut
      -- What follows the character is what followed it before, or a blank.
      have hhead : (before ++ (b ++ (op.chars ++ r))).head? = cs.head? ∨
          ∃ x ∈ b, (before ++ (b ++ (op.chars ++ r))).head? = some x := by
        rw [hcs]
        cases before with
        | cons x before => exact Or.inl rfl
        | nil =>
            cases b with
            | cons x b => exact Or.inr ⟨x, List.mem_cons_self, rfl⟩
            | nil => exact Or.inl (by cases op <;> rfl)
      have hsign : c = '=' ∨ c = '!' → (before ++ (b ++ (op.chars ++ r))).head? ≠ some '=' := by
        intro hc heq
        rcases hhead with hhead | ⟨x, hx, hhead⟩
        · rw [hhead] at heq
          obtain ⟨cs', rfl⟩ := List.head?_eq_some_iff.1 heq
          rcases hc with rfl | rfl
          · exact hequal cs' rfl rfl
          · exact hunequal cs' rfl rfl
        · rw [hhead] at heq
          cases heq
          exact hb.not_mem (by decide) hx
      rw [List.cons_append, cutComparator?_cons (fun hc => hgreater hc) (fun hc => hless hc) hsign,
        ih hcut]
      rfl

/-- Blanks behind a text do not make it a comparison. -/
theorem cutComparator?_trailing {s b : List Char} (hb : Blanks b) (h : cutComparator? s = none) :
    cutComparator? (s ++ b) = none := by
  fun_induction cutComparator? s with
  | case1 => simpa [cutComparator?] using cutComparator?_indented hb []
  | case2 cs => cases h
  | case3 cs => cases h
  | case4 cs => cases h
  | case5 cs => cases h
  | case6 c cs hgreater hless hequal hunequal ih =>
      have hsign : c = '=' ∨ c = '!' → (cs ++ b).head? ≠ some '=' := by
        intro hc heq
        cases cs with
        | nil =>
            obtain ⟨b', rfl⟩ := List.head?_eq_some_iff.1 heq
            exact hb.not_mem (by decide) List.mem_cons_self
        | cons x cs =>
            cases heq
            rcases hc with rfl | rfl
            · exact hequal cs rfl rfl
            · exact hunequal cs rfl rfl
      rw [List.cons_append, cutComparator?_cons (fun hc => hgreater hc) (fun hc => hless hc) hsign,
        ih (Option.map_eq_none_iff.1 h)]
      rfl

/-- Blanks around a text bring no comparator into it and take none from it. -/
theorem isSome_cutComparator?_padded {lead trail : List Char} (hlead : Blanks lead)
    (htrail : Blanks trail) (s : List Char) :
    (cutComparator? (lead ++ s ++ trail)).isSome = (cutComparator? s).isSome := by
  rw [List.append_assoc, cutComparator?_indented hlead, Option.isSome_map]
  cases hcut : cutComparator? s with
  | none => rw [cutComparator?_trailing htrail hcut]
  | some parts =>
      obtain ⟨left, op, right⟩ := parts
      have hbehind := cutComparator?_spaced hcut blanks_nil (right ++ trail)
      rw [eq_of_cutComparator? hcut]
      simp only [List.nil_append, List.append_assoc] at hbehind ⊢
      rw [hbehind]
      rfl

/-- Blanks around the comparator of a comparison, and at its ends. -/
inductive ComparisonSpaced : List Char → List Char → Prop
  | same (s : List Char) : ComparisonSpaced s s
  | compared {s left right b₁ b₂ b₃ b₄ : List Char} {op : Comparator}
      (hcut : cutComparator? s = some (left, op, right)) (h₁ : Blanks b₁) (h₂ : Blanks b₂)
      (h₃ : Blanks b₃) (h₄ : Blanks b₄) :
      ComparisonSpaced s (b₁ ++ (left ++ (b₂ ++ (op.chars ++ (b₃ ++ right ++ b₄)))))

/-- A comparison is spaced by blanks alone. -/
theorem ComparisonSpaced.loose {s s' : List Char} (h : ComparisonSpaced s s') : Loose s s' := by
  cases h with
  | same => exact .refl s
  | @compared left right _ _ _ _ op hcut h₁ h₂ h₃ h₄ =>
      have hright : Loose right _ := (Loose.refl right).padded h₃ h₄
      have hsigned := (Loose.of_blanks h₂).append ((Loose.refl op.chars).append hright)
      have hall := (Loose.of_blanks h₁).append ((Loose.refl left).append hsigned)
      rw [eq_of_cutComparator? hcut]
      simpa using hall

/-- A comparison reads the same with blanks around its comparator. -/
theorem Condition.ofComparison_spaced {s s' : List Char} (h : ComparisonSpaced s s') :
    Condition.ofComparison s' = Condition.ofComparison s := by
  cases h with
  | same => rfl
  | @compared left right _ _ _ _ op hcut h₁ h₂ h₃ h₄ =>
      have hleft := Expr.ofText_padded h₁ h₂ left
      rw [Condition.ofComparison, Condition.ofComparison, cutComparator?_indented h₁,
        cutComparator?_spaced hcut h₂, hcut]
      simp only [Option.map_some, isSome_cutComparator?_padded h₃ h₄, Expr.ofText_padded h₃ h₄,
        ← List.append_assoc, hleft]

/-- A comparison reads the same behind blanks. -/
theorem Condition.ofComparison_indented {b : List Char} (hb : Blanks b) (s : List Char) :
    Condition.ofComparison (b ++ s) = Condition.ofComparison s := by
  cases hcut : cutComparator? s with
  | none =>
      rw [Condition.ofComparison, Condition.ofComparison, cutComparator?_indented hb, hcut]
      rfl
  | some parts =>
      obtain ⟨left, op, right⟩ := parts
      have hleft := Expr.ofText_padded hb blanks_nil left
      rw [List.append_nil] at hleft
      rw [Condition.ofComparison, Condition.ofComparison, cutComparator?_indented hb, hcut]
      simp only [Option.map_some, hleft]

/-! ### Conditions -/

/-- The pieces of a text are changed one by one. -/
def PieceByPiece (sep : Char) (change : List Char → List Char → Prop) (s s' : List Char) : Prop :=
  ∃ parts, List.Forall₂ change (pieces sep s) parts ∧ s' = glue sep parts

/-- Blanks around the comparators of a condition. -/
def ConditionSpaced : List Char → List Char → Prop :=
  PieceByPiece '&' (PieceByPiece '|' ComparisonSpaced)

/-- No piece has the separator in it. -/
theorem not_mem_of_mem_pieces {sep : Char} {s piece : List Char} (h : piece ∈ pieces sep s) :
    sep ∉ piece := by
  induction s generalizing piece with
  | nil =>
      rw [pieces, List.mem_singleton] at h
      rw [h]
      exact List.not_mem_nil
  | cons c s ih =>
      rw [pieces] at h
      split at h
      · rcases List.mem_cons.1 h with rfl | h
        · exact List.not_mem_nil
        · exact ih h
      · rename_i hc
        cases hp : pieces sep s with
        | nil => exact absurd hp (pieces_ne_nil sep s)
        | cons first rest =>
            rw [hp] at h ih
            rcases List.mem_cons.1 h with rfl | h
            · rw [List.mem_cons, not_or]
              exact ⟨fun heq => hc heq.symm, ih List.mem_cons_self⟩
            · exact ih (List.mem_cons_of_mem _ h)

/-- Parts without the separator are the pieces of the text that they are glued to. -/
theorem pieces_glue {sep : Char} {parts : List (List Char)} (hne : parts ≠ [])
    (h : ∀ part ∈ parts, sep ∉ part) : pieces sep (glue sep parts) = parts := by
  induction parts with
  | nil => exact absurd rfl hne
  | cons part rest ih =>
      obtain ⟨hpart, hrest⟩ := List.forall_mem_cons.1 h
      cases rest with
      | nil => exact pieces_of_not_mem hpart
      | cons next rest =>
          change pieces sep (part ++ sep :: glue sep (next :: rest)) = _
          rw [pieces_append_sep hpart, ih (List.cons_ne_nil _ _) hrest]

namespace PieceByPiece

variable {sep : Char} {change : List Char → List Char → Prop} {s s' : List Char}

/-- If pieces are changed by blanks alone, so is the text. -/
theorem loose (hchange : ∀ a a', change a a' → Loose a a') (h : PieceByPiece sep change s s') :
    Loose s s' := by
  obtain ⟨parts, hparts, rfl⟩ := h
  have hglue : ∀ {xs ys : List (List Char)}, List.Forall₂ change xs ys →
      Loose (glue sep xs) (glue sep ys) := by
    intro xs ys hxs
    induction hxs with
    | nil => exact .nil
    | @cons x y xs ys hx hxs ih =>
        cases hxs with
        | nil => exact hchange x y hx
        | cons => exact (hchange x y hx).append (.keep sep ih)
  have hloose := hglue hparts
  rwa [glue_pieces] at hloose

/-- The pieces afterwards are the pieces changed. -/
theorem forall₂_pieces (hsep : isBlank sep = false) (hchange : ∀ a a', change a a' → Loose a a')
    (h : PieceByPiece sep change s s') : List.Forall₂ change (pieces sep s) (pieces sep s') := by
  obtain ⟨parts, hparts, rfl⟩ := h
  have hnone : ∀ part ∈ parts, sep ∉ part := by
    intro part hpart
    obtain ⟨i, hi, rfl⟩ := List.mem_iff_getElem.1 hpart
    have hlength := hparts.length_eq
    have hpiece := hparts.get (i := i) (by omega) hi
    exact (hchange _ _ hpiece).not_mem hsep (not_mem_of_mem_pieces (List.getElem_mem _))
  have hne : parts ≠ [] := by
    rintro rfl
    exact pieces_ne_nil sep s (List.forall₂_nil_right_iff.1 hparts)
  rwa [pieces_glue hne hnone]

/-- What does not change with a piece does not change with the text. -/
theorem map_pieces {γ : Type} {f : List Char → γ} (hsep : isBlank sep = false)
    (hchange : ∀ a a', change a a' → Loose a a') (hf : ∀ a a', change a a' → f a' = f a)
    (h : PieceByPiece sep change s s') : (pieces sep s').map f = (pieces sep s).map f := by
  have hpieces := h.forall₂_pieces hsep hchange
  generalize pieces sep s = xs at hpieces
  generalize pieces sep s' = ys at hpieces
  induction hpieces with
  | nil => rfl
  | @cons x y _ _ hx _ ih => rw [List.map_cons, List.map_cons, hf x y hx, ih]

end PieceByPiece

/-- A condition is spaced by blanks alone. -/
theorem ConditionSpaced.loose {s s' : List Char} (h : ConditionSpaced s s') : Loose s s' :=
  PieceByPiece.loose (fun _ _ hgroup => hgroup.loose fun _ _ => ComparisonSpaced.loose) h

/-- **Conditions.**  Blanks around comparators do not change what a condition stands for. -/
theorem Condition.ofText_spaced {s s' : List Char} (h : ConditionSpaced s s') :
    Condition.ofText s' = Condition.ofText s := by
  have hgroup : ∀ g g', PieceByPiece '|' ComparisonSpaced g g' →
      Condition.ofGroup g' = Condition.ofGroup g := by
    intro g g' hg
    rw [Condition.ofGroup, Condition.ofGroup, hg.map_pieces (by decide)
      (fun _ _ => ComparisonSpaced.loose) fun _ _ => Condition.ofComparison_spaced]
  rw [Condition.ofText, Condition.ofText, PieceByPiece.map_pieces (by decide)
    (fun _ _ hg => hg.loose fun _ _ => ComparisonSpaced.loose) hgroup h]

/-- Blanks before a condition belong to its first operand, and do not count there. -/
theorem Condition.ofText_indented {b : List Char} (hb : Blanks b) (s : List Char) :
    Condition.ofText (b ++ s) = Condition.ofText s := by
  have hindented : ∀ {γ : Type} (sep : Char) (f : List Char → γ), isBlank sep = false →
      (∀ a, f (b ++ a) = f a) → ∀ a, (pieces sep (b ++ a)).map f = (pieces sep a).map f := by
    intro γ sep f hsep hf a
    cases hpieces : pieces sep a with
    | nil => exact absurd hpieces (pieces_ne_nil sep a)
    | cons first others =>
        rw [pieces_append (fun c hc => hb.ne hc hsep) hpieces, List.map_cons, List.map_cons, hf]
  have hgroup : ∀ a, Condition.ofGroup (b ++ a) = Condition.ofGroup a := by
    intro a
    rw [Condition.ofGroup, hindented '|' _ (by decide) (Condition.ofComparison_indented hb),
      Condition.ofGroup]
  rw [Condition.ofText, hindented '&' _ (by decide) hgroup, Condition.ofText]

end DronePilot.Plan
