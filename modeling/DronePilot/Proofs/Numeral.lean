import Mathlib.Algebra.Ring.Int.Defs
import Mathlib.Algebra.Ring.Nat
import DronePilot.Plan.Literal

/-!
# Decimal numerals are read back

A whole number written in decimal has neither blanks nor a sign nor low lines, so the reader of
numerals finds exactly its digits.  Only their number can stop it: up to `maxDigits` digits,
`wholeLiteral_toString` gives the number back.  The numbers that can be written at all are those
below the power of ten with this exponent (`Value.isWritable_int_iff`).
-/

namespace DronePilot.Decimal

open DronePilot.Text

/-- An ASCII digit lies between the code points of zero and nine. -/
theorem toNat_of_isDigit {c : Char} (h : c.isDigit = true) : 48 ≤ c.toNat ∧ c.toNat ≤ 57 := by
  simp only [Char.isDigit, Bool.and_eq_true, decide_eq_true_eq, ge_iff_le,
    UInt32.le_iff_toNat_le] at h
  exact h

/-- Writing a numeral in ASCII leaves its digits alone. -/
theorem toAscii_of_isDigit {c : Char} (h : c.isDigit = true) : toAscii c = c := by
  have hc := toNat_of_isDigit h
  unfold toAscii
  rw [if_pos (by omega)]

theorem isAsciiBlank_of_isDigit {c : Char} (h : c.isDigit = true) : isAsciiBlank c = false := by
  have hc := toNat_of_isDigit h
  simp only [isAsciiBlank, Bool.or_eq_false_iff, Bool.and_eq_false_iff, decide_eq_false_iff_not,
    beq_eq_false_iff_ne]
  omega

/-- Nothing is trimmed from a text without characters to trim. -/
theorem trimWhere_eq_self {p : Char → Bool} {s : List Char} (h : ∀ c ∈ s, p c = false) :
    trimWhere p s = s := by
  have hdrop : ∀ t : List Char, (∀ c ∈ t, p c = false) → t.dropWhile p = t := by
    intro t ht
    cases t with
    | nil => rfl
    | cons c cs => simp [ht c (by simp)]
  unfold trimWhere
  rw [hdrop s h, hdrop s.reverse (by simpa using h), List.reverse_reverse]

/-- A numeral of digits only is bare already. -/
theorem bareNumeral_digits {s : List Char} (h : ∀ c ∈ s, c.isDigit = true) :
    bareNumeral s = s := by
  have hmap : s.map toAscii = s := by
    conv => rhs; rw [← List.map_id s]
    exact List.map_congr_left fun c hc => toAscii_of_isDigit (h c hc)
  unfold bareNumeral
  rw [hmap]
  exact trimWhere_eq_self fun c hc => isAsciiBlank_of_isDigit (h c hc)

/-- A numeral of digits only has no sign. -/
theorem takeSign_digits {s : List Char} (h : ∀ c ∈ s, c.isDigit = true) :
    takeSign s = (false, s) := by
  unfold takeSign
  split
  · exact absurd (h '-' (by simp)) (by decide)
  · exact absurd (h '+' (by simp)) (by decide)
  · rfl

/-- Digits are read one by one; the flag only matters for an empty text. -/
theorem readDigitsFrom_digits {s : List Char} (h : ∀ c ∈ s, c.isDigit = true) (afterDigit : Bool)
    (hs : s ≠ [] ∨ afterDigit = true) :
    readDigitsFrom afterDigit s = some (s.map fun c => c.toNat - 48) := by
  induction s generalizing afterDigit with
  | nil => simp_all [readDigitsFrom]
  | cons c cs ih =>
      have hc : c.isDigit = true := h c (by simp)
      have hline : c ≠ '_' := by
        rintro rfl
        exact absurd hc (by decide)
      have hrest := ih (fun x hx => h x (by simp [hx])) true (Or.inr rfl)
      simp [readDigitsFrom, hline, asciiDigit?, hc, hrest]

/-- The value of digits agrees with the library's. -/
theorem valueOf_digits (s : List Char) :
    valueOf (s.map fun c => c.toNat - 48) = Nat.ofDigitChars 10 s 0 := by
  unfold valueOf
  rw [Nat.ofDigitChars_eq_foldl, List.foldl_map]
  rfl

/-- **Whole numbers are read back from decimal**, if they have no more digits than allowed. -/
theorem readWhole_toDigits {n : Nat} (h : (Nat.toDigits 10 n).length ≤ maxDigits) :
    readWhole (Nat.toDigits 10 n) = .ok (n : Int) := by
  have hdigits : ∀ c ∈ Nat.toDigits 10 n, c.isDigit = true :=
    fun c hc => Nat.isDigit_of_mem_toDigits (by decide) (by decide) hc
  have hread : readDigits (Nat.toDigits 10 n) =
      some ((Nat.toDigits 10 n).map fun c => c.toNat - 48) :=
    readDigitsFrom_digits hdigits false (Or.inl Nat.toDigits_ne_nil)
  unfold readWhole
  rw [bareNumeral_digits hdigits, takeSign_digits hdigits]
  simp only [hread, List.length_map]
  rw [if_neg (by omega), valueOf_digits, Nat.ofDigitChars_ten_toDigits]
  simp

/-- A number has at most so many digits if it lies below the power of ten. -/
theorem fitsDigits_iff {digits n : Nat} : fitsDigits digits n = true ↔ n < 10 ^ digits := by
  induction digits generalizing n with
  | zero =>
      rw [fitsDigits, beq_iff_eq, Nat.pow_zero]
      omega
  | succ digits ih =>
      have hpower : 0 < 10 ^ digits := Nat.pow_pos (by decide)
      rw [fitsDigits, Bool.or_eq_true, beq_iff_eq, ih, Nat.div_lt_iff_lt_mul (by decide),
        Nat.pow_succ]
      omega

end DronePilot.Decimal

namespace DronePilot

/-- The whole numbers that can be written are those below the power of ten. -/
theorem Value.isWritable_int_iff {n : Int} :
    (Value.int n).isWritable = true ↔ n.natAbs < 10 ^ Decimal.maxDigits :=
  Decimal.fitsDigits_iff

end DronePilot

namespace DronePilot.Binary64

/-- A finite double has a mantissa of 53 bits and an exponent up to 971. -/
theorem parts?_bounds {x : Float} {p : Parts} (h : parts? x = some p) :
    p.mantissa < 2 ^ 53 ∧ p.exponent ≤ 971 := by
  have hbits : x.toBits.toNat % twoTo 63 < 2 ^ 63 := Nat.mod_lt _ (Nat.two_pow_pos 63)
  have hfraction : x.toBits.toNat % twoTo 63 % twoTo 52 < 2 ^ 52 :=
    Nat.mod_lt _ (Nat.two_pow_pos 52)
  have hbiased : x.toBits.toNat % twoTo 63 / twoTo 52 < 2 ^ 11 :=
    (Nat.div_lt_iff_lt_mul (Nat.two_pow_pos 52)).2 hbits
  have hunit : twoTo 52 = 2 ^ 52 := rfl
  unfold parts? at h
  simp only at h
  split at h
  · cases h
  · split at h
    · cases h
      simp only
      omega
    · cases h
      simp only
      omega

/-- The whole part of a finite double has no more digits than can be written. -/
theorem natAbs_truncate?_lt {x : Float} {n : Int} (h : truncate? x = some n) :
    n.natAbs < 10 ^ Decimal.maxDigits := by
  obtain ⟨p, hparts, hn⟩ := Option.map_eq_some_iff.1 h
  obtain ⟨hmantissa, hexponent⟩ := parts?_bounds hparts
  have hpower (e : Nat) (he : e ≤ 971) : 2 ^ 53 * 2 ^ e ≤ 10 ^ Decimal.maxDigits :=
    calc 2 ^ 53 * 2 ^ e = 2 ^ (53 + e) := (Nat.pow_add 2 53 e).symm
      _ ≤ 10 ^ (53 + e) := Nat.pow_le_pow_left (by decide) _
      _ ≤ 10 ^ Decimal.maxDigits := by
        refine Nat.pow_le_pow_right (by decide) ?_
        rw [Decimal.maxDigits]
        omega
  have hnum : p.fraction.1 < 10 ^ Decimal.maxDigits := by
    unfold Parts.fraction
    split
    · refine Nat.lt_of_lt_of_le ?_ (hpower p.exponent.toNat (by omega))
      exact Nat.mul_lt_mul_of_pos_right hmantissa (Nat.two_pow_pos _)
    · exact Nat.lt_of_lt_of_le hmantissa (hpower 0 (by decide))
  have hnatAbs : n.natAbs = p.fraction.1 / p.fraction.2 := by
    rw [← hn]
    cases p.negative with
    | true => exact Int.natAbs_neg _
    | false => rfl
  rw [hnatAbs]
  exact Nat.lt_of_le_of_lt (Nat.div_le_self _ _) hnum

end DronePilot.Binary64

namespace DronePilot.Plan

open DronePilot.Decimal

/-- The decimal text of a count is the literal of that count. -/
theorem wholeLiteral_toString {n : Nat} (h : (Nat.toDigits 10 n).length ≤ maxDigits) :
    wholeLiteral (toString n).toList = .ok (n : Int) := by
  have htext : (toString n).toList = Nat.toDigits 10 n := Nat.toList_repr
  unfold wholeLiteral
  rw [htext, readWhole_toDigits h]

end DronePilot.Plan
