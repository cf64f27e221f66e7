import DronePilot.Proofs.Mending

/-!
# Repairs that wrap around

A word of 16 bits holds readings below `2 ^ 15`, and the sum of two of them need not fit.  A sum that
does not fit comes out negative, and so does half of it: the reading that was to be repaired is
repaired to another failed one.

Which sums a repair forms can be told from the raw row.  A gap is filled from its left end towards the
good reading `n` after it: each repair halves the distance to `n`, so after `k` of them the nearest
good reading is `n + (p - n) / 2 ^ k` where `p` is the good reading before the gap, and the next sum
is that and `n`.  At the start of a row there is no `p`, and the first repair takes `n` itself.
`SumsFit` goes through the gaps of a row, and `all_good_iff_sumsFit` says that it decides whether the
repair leaves a negative reading.
-/

namespace DronePilot.Robot

/-! ### One average -/

/-- The average of two readings is what it should be as long as their sum fits. -/
theorem toInt_average {a b : Int16} (ha : 0 ≤ a) (hb : 0 ≤ b)
    (hfits : a.toInt + b.toInt < 2 ^ 15) :
    ((a + b) / 2).toInt = (a.toInt + b.toInt) / 2 := by
  have ha' : 0 ≤ a.toInt := Int16.le_iff_toInt_le.mp ha
  have hb' : 0 ≤ b.toInt := Int16.le_iff_toInt_le.mp hb
  have hsum : (a + b).toInt = a.toInt + b.toInt := by
    rw [Int16.toInt_add]
    exact Int.bmod_eq_of_le (by omega) (by omega)
  have htwo : (2 : Int16).toInt = 2 := rfl
  rw [Int16.toInt_div, hsum, htwo, Int.tdiv_eq_ediv_of_nonneg (by omega)]
  exact Int.bmod_eq_of_le (by omega) (by omega)

/-- Otherwise it is negative. -/
theorem average_neg {a b : Int16} (hwraps : 2 ^ 15 ≤ a.toInt + b.toInt) : (a + b) / 2 < 0 := by
  have ha' : a.toInt < 2 ^ 15 := a.toInt_lt
  have hb' : b.toInt < 2 ^ 15 := b.toInt_lt
  have hsum : (a + b).toInt = a.toInt + b.toInt - 2 ^ 16 := by
    rw [Int16.toInt_add, ← Int.sub_bmod_right]
    exact Int.bmod_eq_of_le (by omega) (by omega)
  have htwo : (2 : Int16).toInt = 2 := rfl
  have hhalf : (a.toInt + b.toInt - 2 ^ 16).tdiv 2 = -((2 ^ 16 - (a.toInt + b.toInt)) / 2) := by
    rw [← Int.neg_sub, Int.neg_tdiv, Int.tdiv_eq_ediv_of_nonneg (by omega)]
  rw [Int16.lt_iff_toInt_lt, Int16.toInt_div, hsum, htwo, hhalf, Int16.toInt_zero,
    Int.bmod_eq_of_le (by omega) (by omega)]
  omega

theorem wordGauge_fair : wordGauge.Fair where
  good_iff x := by simp [wordGauge]
  failed_eq x := by simp [wordGauge, ← Int16.not_le]
  between_average {a b c} ha hb hc hgood := by
    obtain rfl : (a + b) / 2 = c := Except.ok.inj hc
    have ha' : 0 ≤ a := by simpa [wordGauge] using ha
    have hb' : 0 ≤ b := by simpa [wordGauge] using hb
    have hc' : 0 ≤ (a + b) / 2 := by simpa [wordGauge] using hgood
    have hfits : a.toInt + b.toInt < 2 ^ 15 := by
      rw [← Int.not_le]
      exact fun hwraps => Int16.not_le.mpr (average_neg hwraps) hc'
    have hvalue := toInt_average ha' hb' hfits
    simp only [Between, Int16.le_iff_toInt_le, hvalue]
    omega

/-! ### The gaps of a row -/

/-- The sums that fill a gap of failed readings fit into a word.  The gap lies between the good
readings `p`, if there is one, and `n`. -/
def GapFits : Option Int16 → Nat → Int16 → Prop
  | some p, gap, n => ∀ k < gap, 2 * n.toInt + (p.toInt - n.toInt) / 2 ^ k < 2 ^ 15
  | none, gap, n => 1 < gap → 2 * n.toInt < 2 ^ 15

instance (last : Option Int16) (gap : Nat) (n : Int16) : Decidable (GapFits last gap n) :=
  match last with
  | some p =>
    inferInstanceAs (Decidable (∀ k < gap, 2 * n.toInt + (p.toInt - n.toInt) / 2 ^ k < 2 ^ 15))
  | none => inferInstanceAs (Decidable (1 < gap → 2 * n.toInt < 2 ^ 15))

/-- The sums that fill the gaps of a row fit into a word.  The last good reading before the row is
`last`, with `gap` failed ones after it. -/
def SumsFit (last : Option Int16) (gap : Nat) : List Int16 → Prop
  | [] => True
  | x :: rest =>
    if 0 ≤ x then GapFits last gap x ∧ SumsFit (some x) 0 rest else SumsFit last (gap + 1) rest

instance decidableSumsFit (last : Option Int16) (gap : Nat) (row : List Int16) :
    Decidable (SumsFit last gap row) :=
  match row with
  | [] => .isTrue trivial
  | x :: rest =>
    have := decidableSumsFit (some x) 0 rest
    have := decidableSumsFit last (gap + 1) rest
    inferInstanceAs (Decidable (if 0 ≤ x then GapFits last gap x ∧ SumsFit (some x) 0 rest
      else SumsFit last (gap + 1) rest))

/-- A longer gap before the same reading needs more sums to fit. -/
theorem GapFits.mono {last : Option Int16} {gap gap' : Nat} {n : Int16} (h : GapFits last gap n)
    (hle : gap' ≤ gap) : GapFits last gap' n := by
  cases last with
  | none => exact fun hgap => h (by omega)
  | some p => exact fun k hk => h k (by omega)

theorem SumsFit.gapFits {last : Option Int16} {gap : Nat} {row : List Int16} {n : Int16}
    (h : SumsFit last gap row) (hn : row.find? wordGauge.good = some n) : GapFits last gap n := by
  induction row generalizing gap with
  | nil => cases hn
  | cons x rest ih =>
      by_cases hx : 0 ≤ x
      · rw [List.find?_cons_of_pos ((wordGauge_fair.good_iff x).mpr hx), Option.some.injEq] at hn
        rw [SumsFit, if_pos hx] at h
        exact hn ▸ h.1
      · rw [List.find?_cons_of_neg (fun hgood => hx ((wordGauge_fair.good_iff x).mp hgood))] at hn
        rw [SumsFit, if_neg hx] at h
        exact (ih h hn).mono (Nat.le_succ gap)

/-- How far a gap before the good reading `n` is filled after `gap` repairs whose sums fitted. -/
def Level (last : Option Int16) (gap : Nat) (n : Int16) (nearest : Option Int16) : Prop :=
  match last with
  | some p => ∃ v, nearest = some v ∧ v.toInt = n.toInt + (p.toInt - n.toInt) / 2 ^ gap
  | none => nearest = if gap = 0 then none else some n

theorem ediv_two_pow_succ (d : Int) (k : Nat) : d / 2 ^ k / 2 = d / 2 ^ (k + 1) := by
  rw [Int.ediv_ediv_of_nonneg (by positivity), ← pow_succ]

/-- A repair in a gap whose sums fit so far: half the rest of the way if the next sum fits as well,
and a negative reading otherwise. -/
theorem Level.fill {last nearest : Option Int16} {gap : Nat} {n y : Int16}
    (h : Level last gap n nearest) (hfits : GapFits last gap n) (hn : 0 ≤ n)
    (hnearest : ∀ v ∈ nearest, 0 ≤ v) (hy : wordGauge.fill nearest (some n) = .ok y) :
    GapFits last (gap + 1) n ∧ 0 ≤ y ∧ Level last (gap + 1) n (some y) ∨
      ¬GapFits last (gap + 1) n ∧ y < 0 := by
  cases last with
  | none =>
      cases gap with
      | zero =>
          obtain rfl : nearest = none := h
          obtain rfl : n = y := Except.ok.inj hy
          exact .inl ⟨fun hgap => by omega, hn, rfl⟩
      | succ gap =>
          obtain rfl : nearest = some n := h
          obtain rfl : (n + n) / 2 = y := Except.ok.inj hy
          by_cases hsum : n.toInt + n.toInt < 2 ^ 15
          · have hself : (n + n) / 2 = n := by
              rw [← Int16.toInt_inj, toInt_average hn hn hsum]
              omega
            rw [hself]
            exact .inl ⟨fun _ => by omega, hn, rfl⟩
          · exact .inr ⟨fun hgap => hsum (by have := hgap (by omega); omega),
              average_neg (Int.not_lt.mp hsum)⟩
  | some p =>
      obtain ⟨v, rfl, hv⟩ := h
      obtain rfl : (v + n) / 2 = y := Except.ok.inj hy
      have hvpos : 0 ≤ v := hnearest v rfl
      by_cases hsum : v.toInt + n.toInt < 2 ^ 15
      · have hvalue := toInt_average hvpos hn hsum
        have hhalf := ediv_two_pow_succ (p.toInt - n.toInt) gap
        have hpos : 0 ≤ v.toInt := Int16.le_iff_toInt_le.mp hvpos
        have hnpos : 0 ≤ n.toInt := Int16.le_iff_toInt_le.mp hn
        refine .inl ⟨fun k hk => ?_, ?_, (v + n) / 2, rfl, ?_⟩
        · rcases Nat.lt_succ_iff_lt_or_eq.mp hk with hk | rfl
          · exact hfits k hk
          · omega
        · rw [Int16.le_iff_toInt_le, hvalue, Int16.toInt_zero]
          omega
        · rw [hvalue, ← hhalf]
          omega
      · refine .inr ⟨fun hgap => hsum ?_, average_neg (Int.not_lt.mp hsum)⟩
        have := hgap gap (Nat.lt_succ_self gap)
        omega

/-- After the last good reading nothing is summed up. -/
theorem fill_none_nonneg {nearest : Option Int16} {y : Int16} (hnearest : ∀ v ∈ nearest, 0 ≤ v)
    (hy : wordGauge.fill nearest none = .ok y) : 0 ≤ y := by
  cases nearest with
  | none =>
      obtain rfl : 0 = y := Except.ok.inj hy
      exact Int16.le_refl 0
  | some a =>
      obtain rfl : a = y := Except.ok.inj hy
      exact hnearest a rfl

/-- The repair leaves no negative reading exactly if the sums in all gaps fit.  The induction is on
the raw row; inside a gap it carries how far the gap is filled. -/
theorem all_good_iff_sumsFit {before row out : List Int16} {last : Option Int16} {gap : Nat}
    (h : wordGauge.repairFrom before row = .ok out)
    (hgap : ∀ n, row.find? wordGauge.good = some n →
      GapFits last gap n ∧ Level last gap n (before.find? wordGauge.good)) :
    (∀ y ∈ out, 0 ≤ y) ↔ SumsFit last gap row := by
  induction row generalizing before out last gap with
  | nil =>
      obtain rfl : [] = out := Except.ok.inj h
      simp [SumsFit]
  | cons x rest ih =>
      have hgood : ∀ x, wordGauge.good x = true ↔ 0 ≤ x := wordGauge_fair.good_iff
      obtain ⟨y, more, rfl, hmore, hstep⟩ := wordGauge_fair.repairFrom_cons_inv h
      have hnear : 0 ≤ y → (y :: before).find? wordGauge.good = some y := fun hpos =>
        List.find?_cons_of_pos ((hgood y).mpr hpos)
      have hbefore : ∀ v ∈ before.find? wordGauge.good, 0 ≤ v := fun v hv =>
        (hgood v).mp (List.find?_some hv)
      rw [List.forall_mem_cons, SumsFit]
      obtain ⟨hx, rfl⟩ | ⟨hx, hy⟩ := hstep
      · have hpos : 0 ≤ y := (hgood y).mp hx
        have hfits : GapFits last gap y := (hgap y (List.find?_cons_of_pos hx)).1
        have hstart : ∀ n, rest.find? wordGauge.good = some n →
            GapFits (some y) 0 n ∧ Level (some y) 0 n ((y :: before).find? wordGauge.good) :=
          fun n _ => ⟨fun k hk => by omega, y, hnear hpos, by simp⟩
        rw [if_pos hpos, ih hmore hstart]
        exact and_congr_left fun _ => iff_of_true hpos hfits
      · have hneg : ¬0 ≤ x := fun hpos => by simp [(hgood x).mpr hpos] at hx
        rw [List.find?_cons_of_neg (by simp [hx])] at hgap
        rw [if_neg hneg]
        cases hnext : rest.find? wordGauge.good with
        | none =>
            rw [hnext] at hy
            rw [ih hmore fun n hn => by simp [hnext] at hn]
            exact and_iff_right (fill_none_nonneg hbefore hy)
        | some n =>
            obtain ⟨hfits, hlevel⟩ := hgap n hnext
            have hn : 0 ≤ n := (hgood n).mp (List.find?_some hnext)
            rw [hnext] at hy
            obtain ⟨hfits', hpos, hlevel'⟩ | ⟨hwraps, hneg⟩ := hlevel.fill hfits hn hbefore hy
            · rw [ih hmore fun m hm => by
                obtain rfl : n = m := Option.some.inj (hnext.symm.trans hm)
                exact ⟨hfits', hnear hpos ▸ hlevel'⟩]
              exact and_iff_right hpos
            · exact ⟨fun hpos => absurd hpos.1 (Int16.not_le.mpr hneg),
                fun hrest => absurd (hrest.gapFits hnext) hwraps⟩

/-- Readings of at most 14 bits always fit. -/
theorem sumsFit_of_lt {row : List Int16} (hrow : ∀ x ∈ row, x.toInt < 2 ^ 14) {last : Option Int16}
    (hlast : ∀ p ∈ last, p.toInt < 2 ^ 14) (gap : Nat) : SumsFit last gap row := by
  induction row generalizing last gap with
  | nil => trivial
  | cons x rest ih =>
      have hrest : ∀ z ∈ rest, z.toInt < 2 ^ 14 := fun z hz => hrow z (List.mem_cons_of_mem x hz)
      have hx : x.toInt < 2 ^ 14 := hrow x List.mem_cons_self
      rw [SumsFit]
      split
      · refine ⟨?_, ih hrest (by simp_all) 0⟩
        cases last with
        | none => exact fun _ => by omega
        | some p =>
            intro k _
            have hp := hlast p rfl
            have hpow : (0 : Int) < 2 ^ k := by positivity
            rcases Int.le_total p.toInt x.toInt with hpx | hxp
            · have hdown := Int.ediv_le_ediv hpow (show p.toInt - x.toInt ≤ 0 by omega)
              rw [Int.zero_ediv] at hdown
              omega
            · have hup := Int.ediv_le_self (2 ^ k) (show 0 ≤ p.toInt - x.toInt by omega)
              omega
      · exact ih hrest hlast (gap + 1)

/-! ### Rows of words -/

/-- Keeping the better one of two at a time ends with one that is as good as any. -/
theorem foldl_best (better : Int16 → Int16 → Prop) (hrefl : ∀ a, better a a)
    (htrans : ∀ {a b c}, better a b → better b c → better a c) {pick : Int16 → Int16 → Int16}
    (hpick : ∀ a b, better (pick a b) a ∧ better (pick a b) b) (x : Int16) (rest : List Int16) :
    ∀ z ∈ x :: rest, better (rest.foldl pick x) z := by
  induction rest generalizing x with
  | nil =>
      intro z hz
      rw [List.mem_singleton.mp hz]
      exact hrefl x
  | cons b rest ih =>
      obtain ⟨hx, hb⟩ := hpick x b
      have hfirst : better (rest.foldl pick (pick x b)) (pick x b) := ih _ _ List.mem_cons_self
      intro z hz
      rcases List.mem_cons.mp hz with rfl | hz
      · exact htrans hfirst hx
      rcases List.mem_cons.mp hz with rfl | hz
      · exact htrans hfirst hb
      · exact ih _ z (List.mem_cons_of_mem _ hz)

/-- A row with readings has a least and a greatest one. -/
theorem exists_least_greatest {row : List Int16} (h : row ≠ []) :
    ∃ lo hi, least row = some lo ∧ greatest row = some hi ∧ (∀ x ∈ row, lo ≤ x) ∧
      ∀ x ∈ row, x ≤ hi := by
  obtain ⟨x, rest, rfl⟩ := List.exists_cons_of_ne_nil h
  refine ⟨_, _, rfl, rfl, ?_, ?_⟩
  · refine foldl_best (· ≤ ·) Int16.le_refl Int16.le_trans (fun a b => ?_) x rest
    split
    · next hlt => exact ⟨Int16.le_of_lt hlt, Int16.le_refl b⟩
    · next hle => exact ⟨Int16.le_refl a, Int16.not_lt.mp hle⟩
  · refine foldl_best (· ≥ ·) Int16.le_refl (fun hab hbc => Int16.le_trans hbc hab) (fun a b => ?_) x
      rest
    split
    · next hlt => exact ⟨Int16.le_of_lt hlt, Int16.le_refl b⟩
    · next hle => exact ⟨Int16.le_refl a, Int16.not_lt.mp hle⟩

/-- A row of words is always repaired.  The repair leaves no negative reading exactly if no sum wraps
around, and then its results lie between the least and the greatest good reading.  Readings of at
most 14 bits are safe. -/
theorem mended_words_good_iff (row : List Int16) :
    ∃ out, wordGauge.mend (.inPlace row) = .ok (.inPlace out) ∧
      ((∀ y ∈ out, 0 ≤ y) ↔ SumsFit none 0 row) ∧
      (SumsFit none 0 row → (∃ x ∈ row, 0 ≤ x) →
        ∃ lo hi, least (row.filter fun x => 0 ≤ x) = some lo ∧
          greatest (row.filter fun x => 0 ≤ x) = some hi ∧ ∀ y ∈ out, lo ≤ y ∧ y ≤ hi) ∧
      ((∀ x ∈ row, x < 16384) → SumsFit none 0 row) := by
  obtain ⟨out, hout, -⟩ := exists_repairFrom_words [] row
  have hfits : (∀ y ∈ out, 0 ≤ y) ↔ SumsFit none 0 row :=
    all_good_iff_sumsFit hout fun n _ => ⟨fun hgap => by omega, rfl⟩
  refine ⟨out, ?_, hfits, ?_, ?_⟩
  · exact Gauge.mend_of_repair (r := .inPlace row) hout
  · rintro hsums ⟨x, hx, hpos⟩
    have hgoods : ∀ y ∈ out, wordGauge.good y = true := fun y hy =>
      (wordGauge_fair.good_iff y).mpr (hfits.mpr hsums y hy)
    have hmended := Gauge.mended_repairFrom wordGauge_fair (.inl rfl) hout hgoods
    have hxgood : wordGauge.good x = true := (wordGauge_fair.good_iff x).mpr hpos
    obtain ⟨lo, hi, hleast, hgreatest, hlo, hhi⟩ :=
      exists_least_greatest (List.ne_nil_of_mem (List.mem_filter.mpr ⟨hx, hxgood⟩))
    exact ⟨lo, hi, hleast, hgreatest, hmended.bounded ⟨x, hx, hxgood⟩ hlo hhi⟩
  · intro hsmall
    exact sumsFit_of_lt (fun x hx => Int16.lt_iff_toInt_lt.mp (hsmall x hx)) (by simp) 0

/-- A gap of two between these readings can be filled, one of three cannot. -/
example : SumsFit none 0 [0, -1, -1, 20000] ∧ ¬SumsFit none 0 [0, -1, -1, -1, 20000] := by decide

/-- Half the sum of two large readings comes out negative. -/
theorem mended_word_negative :
    wordGauge.mend (.inPlace [30000, -1, 30000]) = .ok (.inPlace [30000, -2768, 30000]) ∧
      ¬(0 : Int16) ≤ -2768 :=
  ⟨rfl, by decide⟩

end DronePilot.Robot
