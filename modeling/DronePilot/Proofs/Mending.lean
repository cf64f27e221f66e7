import DronePilot.Robot.Reading
import Mathlib.Algebra.Order.Field.Rat
import Mathlib.Tactic.Linarith

/-!
# Mended rows

What a repaired row looks like beside the row it was made from.  `Mended` says it reading by reading:
a good reading is kept, and a failed one is filled from the nearest good readings of the raw row on
either side.  The repair itself looks back at readings that it has filled already; `Carried` is what
such a reading still tells about the raw row.

`mended_repairFrom` holds for every gauge whose averages lie between the readings averaged, as long as
they are good.  The bounds on a mended row follow from `Mended` alone.
-/

namespace DronePilot.Robot

variable {α : Type} {g : Gauge α}

/-- A reading that failed is filled from the nearest good ones before and after it. -/
theorem Gauge.repairFrom_cons (g : Gauge α) (before : List α) (x : α) (rest : List α) :
    g.repairFrom before (x :: rest) =
      (if g.failed x then g.fill (before.find? g.good) (rest.find? g.good) else pure x) >>= fun y =>
        g.repairFrom (y :: before) rest >>= fun more => pure (y :: more) := by
  rw [repairFrom]
  split
  · rfl
  · rfl

/-! ### Repairing where the row lies -/

namespace Row

/-- A row holds the readings that it is given. -/
@[simp]
theorem readings_hold (r : Row α) (ys : List α) : (r.hold ys).readings = ys := by
  unfold hold readings
  cases r.copy with
  | none => rfl
  | some _ => rfl

/-- What a row held before does not matter. -/
@[simp]
theorem hold_hold (r : Row α) (xs ys : List α) : (r.hold xs).hold ys = r.hold ys := by
  unfold hold
  cases r.copy with
  | none => rfl
  | some _ => rfl

/-- A row holds its own readings. -/
@[simp]
theorem hold_readings (r : Row α) : r.hold r.readings = r := by
  obtain ⟨given, copy⟩ := r
  cases copy with
  | none => rfl
  | some _ => rfl

end Row

/-- Mending at a position looks at what was mended before it and at what comes after it. -/
theorem Gauge.mendAt_append (g : Gauge α) (r : Row α) (done : List α) (x : α) (rest : List α) :
    g.mendAt done.length (r.hold (done ++ x :: rest)) =
      (if g.failed x then g.fill (done.reverse.find? g.good) (rest.find? g.good) else pure x) >>=
        fun y => pure (r.hold (done ++ y :: rest)) := by
  have hat : (done ++ x :: rest)[done.length]? = some x := by simp
  have htake : (done ++ x :: rest).take done.length = done := by simp
  have hdrop : (done ++ x :: rest).drop (done.length + 1) = rest := by simp
  have hset : ∀ y, (done ++ x :: rest).set done.length y = done ++ y :: rest := by simp
  simp only [mendAt, Row.readings_hold, hat, htake, hdrop, hset, Row.hold_hold]
  split
  · rfl
  · rfl

/-- Going from position to position repairs what the recursion over the row repairs. -/
theorem Gauge.mendFrom_append (g : Gauge α) (r : Row α) (done rest : List α) :
    g.mendFrom done.length rest.length (r.hold (done ++ rest)) =
      (fun ys => r.hold (done ++ ys)) <$> g.repairFrom done.reverse rest := by
  induction rest generalizing done with
  | nil => rfl
  | cons x rest ih =>
      rw [List.length_cons, mendFrom, mendAt_append, repairFrom_cons]
      simp only [bind_assoc, map_bind, pure_bind, map_pure]
      congr 1
      funext y
      have hy := ih (done ++ [y])
      simp only [List.length_append, List.length_cons, List.length_nil, List.append_assoc,
        List.cons_append, List.nil_append, List.reverse_append, List.reverse_cons,
        List.reverse_nil] at hy
      rw [hy, map_eq_pure_bind]

/-- Mending a row in place is repairing its readings. -/
theorem Gauge.mend_eq (g : Gauge α) (r : Row α) : g.mend r = r.hold <$> g.repair r.readings := by
  have h := g.mendFrom_append r [] r.readings
  rw [List.nil_append, Row.hold_readings] at h
  exact h

/-- So it comes to the repaired readings. -/
theorem Gauge.mend_of_repair {r : Row α} {out : List α} (h : g.repair r.readings = .ok out) :
    g.mend r = .ok (r.hold out) := by
  rw [mend_eq, h]
  rfl

/-! ### What a repaired row looks like -/

/-- The nearest good reading before a position. -/
def Gauge.nearestBefore (g : Gauge α) (row : List α) (i : Nat) : Option α :=
  (row.take i).reverse.find? g.good

/-- The nearest good reading after a position. -/
def Gauge.nearestAfter (g : Gauge α) (row : List α) (i : Nat) : Option α :=
  (row.drop (i + 1)).find? g.good

/-- Between two readings, whichever of them is the smaller one. -/
def Between [LE α] (a b y : α) : Prop := a ≤ y ∧ y ≤ b ∨ b ≤ y ∧ y ≤ a

/-- What stands for a failed reading whose nearest good readings are `last` before it and `next`
after it. -/
def Gauge.Filled [LE α] (g : Gauge α) : Option α → Option α → α → Prop
  | some a, some b, y => Between a b y
  | some a, none, y => y = a
  | none, some b, y => y = b
  | none, none, y => y = g.zero

/-- The second row is the first one repaired; `last` is the nearest good reading before both. -/
inductive Gauge.Mended [LE α] (g : Gauge α) : Option α → List α → List α → Prop
  | nil (last : Option α) : Mended g last [] []
  | kept {last : Option α} {x : α} {rest out : List α} (hgood : g.good x = true)
      (more : Mended g (some x) rest out) : Mended g last (x :: rest) (x :: out)
  | filled {last : Option α} {x y : α} {rest out : List α} (hbad : g.good x = false)
      (hfilled : g.Filled last (rest.find? g.good) y) (more : Mended g last rest out) :
      Mended g last (x :: rest) (y :: out)

/-- What the repair needs of a gauge: readings are in order, the good ones are those from zero on, and
an average that is good lies between the readings averaged. -/
structure Gauge.Fair [LE α] (g : Gauge α) : Prop where
  good_iff (x : α) : g.good x = true ↔ g.zero ≤ x
  failed_eq (x : α) : g.failed x = !g.good x
  between_average {a b c : α} (ha : g.good a = true) (hb : g.good b = true)
    (hc : g.average a b = .ok c) (hgood : g.good c = true) : Between a b c

/-- The first step of a repair: a good reading is kept, a failed one is filled. -/
theorem Gauge.Fair.repairFrom_cons_inv [LE α] (hg : g.Fair) {before rest out : List α} {x : α}
    (h : g.repairFrom before (x :: rest) = .ok out) :
    ∃ y more, out = y :: more ∧ g.repairFrom (y :: before) rest = .ok more ∧
      (g.good x = true ∧ y = x ∨
        g.good x = false ∧ g.fill (before.find? g.good) (rest.find? g.good) = .ok y) := by
  rw [repairFrom_cons] at h
  obtain ⟨y, hy, h⟩ := bind_eq_ok_iff.mp h
  obtain ⟨more, hmore, h⟩ := bind_eq_ok_iff.mp h
  refine ⟨y, more, (Except.ok.inj h).symm, hmore, ?_⟩
  rw [hg.failed_eq] at hy
  cases hx : g.good x with
  | true =>
      rw [hx] at hy
      exact .inl ⟨rfl, (Except.ok.inj hy).symm⟩
  | false =>
      rw [hx] at hy
      exact .inr ⟨rfl, hy⟩

namespace Gauge.Mended

variable [LE α] {last : Option α} {row out : List α}

/-- A mended row is as long as it was. -/
theorem length_eq (h : g.Mended last row out) : out.length = row.length := by
  induction h with
  | nil => rfl
  | kept _ _ ih => simp [ih]
  | filled _ _ _ ih => simp [ih]

/-- Position by position: a good reading is kept, a failed one is filled from the nearest good ones. -/
theorem getElem? (h : g.Mended last row out) {i : Nat} {x : α} (hx : row[i]? = some x) :
    ∃ y, out[i]? = some y ∧ (g.good x = true → y = x) ∧
      (g.good x = false →
        g.Filled ((g.nearestBefore row i).or last) (g.nearestAfter row i) y) := by
  induction h generalizing i with
  | nil => simp at hx
  | @kept last z rest out hz more ih =>
      cases i with
      | zero =>
          obtain rfl : z = x := by simpa using hx
          exact ⟨z, rfl, fun _ => rfl, fun hbad => by simp [hz] at hbad⟩
      | succ i =>
          obtain ⟨y, hy, hkept, hfilled⟩ := ih (by simpa using hx)
          refine ⟨y, by simpa using hy, hkept, fun hbad => ?_⟩
          simpa [nearestBefore, nearestAfter, List.find?_append, hz, Option.or_assoc]
            using hfilled hbad
  | @filled last z w rest out hz hw more ih =>
      cases i with
      | zero =>
          obtain rfl : z = x := by simpa using hx
          refine ⟨w, rfl, fun hgood => by simp [hz] at hgood, fun _ => ?_⟩
          simpa [nearestBefore, nearestAfter] using hw
      | succ i =>
          obtain ⟨y, hy, hkept, hfilled⟩ := ih (by simpa using hx)
          refine ⟨y, by simpa using hy, hkept, fun hbad => ?_⟩
          simpa [nearestBefore, nearestAfter, List.find?_append, hz] using hfilled hbad

end Gauge.Mended

section Order

variable [LE α] [Std.IsLinearOrder α]

/-- What lies between a value between and the one end lies between the ends. -/
theorem Between.trans {a b v y : α} (hv : Between a b v) (hy : Between v b y) : Between a b y := by
  obtain ⟨hav, hvb⟩ | ⟨hbv, hva⟩ := hv
  · obtain ⟨hvy, hyb⟩ | ⟨hby, hyv⟩ := hy
    · exact .inl ⟨Std.le_trans hav hvy, hyb⟩
    · exact .inl ⟨Std.le_trans hav (Std.le_trans hvb hby), Std.le_trans hyv hvb⟩
  · obtain ⟨hvy, hyb⟩ | ⟨hby, hyv⟩ := hy
    · exact .inr ⟨Std.le_trans hbv hvy, Std.le_trans hyb (Std.le_trans hbv hva)⟩
    · exact .inr ⟨hby, Std.le_trans hyv hva⟩

/-- Between a value and itself there is only the value. -/
theorem Between.eq_of_self {a y : α} (h : Between a a y) : y = a := by
  obtain ⟨h₁, h₂⟩ | ⟨h₁, h₂⟩ := h
  · exact Std.le_antisymm h₂ h₁
  · exact Std.le_antisymm h₂ h₁

/-- The nearest good reading when some of a run have been filled: that of the raw row, or one that
could stand for any of the run. -/
def Gauge.Carried (g : Gauge α) (last next nearest : Option α) : Prop :=
  nearest = last ∨ ∃ v, nearest = some v ∧ g.Filled last next v

/-- Filling from a reading that was filled itself is as good as filling from the raw row. -/
theorem Gauge.Carried.filled (hg : g.Fair) {last next nearest : Option α} {y : α}
    (h : g.Carried last next nearest) (hnearest : ∀ v ∈ nearest, g.good v = true)
    (hnext : ∀ v ∈ next, g.good v = true) (hy : g.fill nearest next = .ok y)
    (hgood : g.good y = true) : g.Filled last next y := by
  obtain rfl | ⟨v, rfl, hv⟩ := h
  · cases nearest with
    | none =>
        cases next with
        | none => exact (Except.ok.inj hy).symm
        | some b => exact (Except.ok.inj hy).symm
    | some a =>
        cases next with
        | none => exact (Except.ok.inj hy).symm
        | some b => exact hg.between_average (hnearest a rfl) (hnext b rfl) hy hgood
  · cases next with
    | none =>
        obtain rfl : v = y := Except.ok.inj hy
        exact hv
    | some b =>
        have hvy : Between v b y :=
          hg.between_average (hnearest v rfl) (hnext b rfl) hy hgood
        cases last with
        | none =>
            obtain rfl : v = b := hv
            exact hvy.eq_of_self
        | some a => exact Between.trans hv hvy

/-- A repair whose results are all good mends the row. -/
theorem Gauge.mended_repairFrom (hg : g.Fair) {before row out : List α} {last : Option α}
    (hcarried : g.Carried last (row.find? g.good) (before.find? g.good))
    (h : g.repairFrom before row = .ok out) (hout : ∀ y ∈ out, g.good y = true) :
    g.Mended last row out := by
  induction row generalizing before out last with
  | nil =>
      obtain rfl : [] = out := Except.ok.inj h
      exact .nil last
  | cons x rest ih =>
      obtain ⟨y, more, rfl, hmore, hstep⟩ := hg.repairFrom_cons_inv h
      have hygood : g.good y = true := hout y List.mem_cons_self
      have hnear : (y :: before).find? g.good = some y := by simp [hygood]
      have hrest : ∀ z ∈ more, g.good z = true := fun z hz => hout z (List.mem_cons_of_mem y hz)
      obtain ⟨hx, rfl⟩ | ⟨hx, hy⟩ := hstep
      · exact .kept hx (ih (.inl hnear) hmore hrest)
      · rw [List.find?_cons_of_neg (by simp [hx])] at hcarried
        have hfilled : g.Filled last (rest.find? g.good) y :=
          hcarried.filled hg (fun v hv => List.find?_some hv) (fun v hv => List.find?_some hv) hy
            hygood
        exact .filled hx hfilled (ih (.inr ⟨y, hnear, hfilled⟩) hmore hrest)

/-! ### Bounds on a mended row -/

/-- Between two good readings of the row, or the one before it; zero if there is none. -/
def Gauge.Within (g : Gauge α) (last : Option α) (row : List α) (y : α) : Prop :=
  (∃ a b, (a ∈ last ∨ a ∈ row.filter g.good) ∧ (b ∈ last ∨ b ∈ row.filter g.good) ∧
    a ≤ y ∧ y ≤ b) ∨ last = none ∧ row.filter g.good = [] ∧ y = g.zero

/-- What is filled in lies within the good readings around it. -/
theorem Gauge.Filled.within {last : Option α} {row : List α} {y : α}
    (h : g.Filled last (row.find? g.good) y) : g.Within last row y := by
  cases hnext : row.find? g.good with
  | none =>
      rw [hnext] at h
      cases last with
      | none => exact .inr ⟨rfl, by simpa [List.filter_eq_nil_iff] using hnext, h⟩
      | some a =>
          obtain rfl : y = a := h
          exact .inl ⟨y, y, .inl rfl, .inl rfl, Std.le_refl y, Std.le_refl y⟩
  | some b =>
      have hb : b ∈ row.filter g.good :=
        List.mem_filter.mpr ⟨List.mem_of_find?_eq_some hnext, List.find?_some hnext⟩
      rw [hnext] at h
      cases last with
      | none =>
          obtain rfl : y = b := h
          exact .inl ⟨y, y, .inr hb, .inr hb, Std.le_refl y, Std.le_refl y⟩
      | some a =>
          obtain ⟨hay, hyb⟩ | ⟨hby, hya⟩ := h
          · exact .inl ⟨a, b, .inl rfl, .inr hb, hay, hyb⟩
          · exact .inl ⟨b, a, .inr hb, .inl rfl, hby, hya⟩

namespace Gauge.Mended

variable {last : Option α} {row out : List α}

/-- All of a mended row lies within its good readings. -/
theorem within (h : g.Mended last row out) {y : α} (hy : y ∈ out) : g.Within last row y := by
  induction h with
  | nil => simp at hy
  | @kept last x rest out hx more ih =>
      have hfilter : (x :: rest).filter g.good = x :: rest.filter g.good := by simp [hx]
      rw [Gauge.Within, hfilter]
      rcases List.mem_cons.mp hy with rfl | hy
      · exact .inl ⟨y, y, .inr List.mem_cons_self, .inr List.mem_cons_self, Std.le_refl y,
          Std.le_refl y⟩
      · obtain ⟨a, b, ha, hb, hay, hyb⟩ | ⟨hlast, -⟩ := ih hy
        · have hin : ∀ {c}, c ∈ some x ∨ c ∈ rest.filter g.good → c ∈ x :: rest.filter g.good := by
            rintro c (hc | hc)
            · rw [Option.mem_some.mp hc]
              exact List.mem_cons_self
            · exact List.mem_cons_of_mem x hc
          exact .inl ⟨a, b, .inr (hin ha), .inr (hin hb), hay, hyb⟩
        · cases hlast
  | @filled last x w rest out hx hw more ih =>
      have hfilter : (x :: rest).filter g.good = rest.filter g.good := by simp [hx]
      rw [Gauge.Within, hfilter]
      rcases List.mem_cons.mp hy with rfl | hy
      · exact hw.within
      · exact ih hy

/-- Bounds on the good readings are bounds on the results. -/
theorem bounded (h : g.Mended none row out) (hgood : ∃ x ∈ row, g.good x = true) {lo hi : α}
    (hlo : ∀ x ∈ row.filter g.good, lo ≤ x) (hhi : ∀ x ∈ row.filter g.good, x ≤ hi) :
    ∀ y ∈ out, lo ≤ y ∧ y ≤ hi := by
  intro y hy
  obtain ⟨a, b, ha | ha, hb | hb, hay, hyb⟩ | ⟨-, hnone, -⟩ := h.within hy
  · cases ha
  · cases ha
  · cases hb
  · exact ⟨Std.le_trans (hlo a ha) hay, Std.le_trans hyb (hhi b hb)⟩
  · obtain ⟨x, hx, hxgood⟩ := hgood
    exact absurd hxgood (by simpa using List.filter_eq_nil_iff.mp hnone x hx)

/-- A row without a good reading is mended to zeros. -/
theorem eq_zero (h : g.Mended none row out) (hbad : ∀ x ∈ row, g.good x = false) :
    ∀ y ∈ out, y = g.zero := by
  intro y hy
  have hnone : row.filter g.good = [] :=
    List.filter_eq_nil_iff.mpr fun x hx => by simp [hbad x hx]
  obtain ⟨a, b, ha | ha, -⟩ | ⟨-, -, hzero⟩ := h.within hy
  · cases ha
  · rw [hnone] at ha
    cases ha
  · exact hzero

end Gauge.Mended

end Order

/-! ### Repairs that come to an end -/

/-- A repair comes to an end if averages do; what holds of good readings, of zero and of averages holds
of every result. -/
theorem Gauge.exists_repairFrom (g : Gauge α) {P : α → Prop} (hzero : P g.zero)
    (hgood : ∀ x, g.good x = true ∨ g.failed x = false → P x)
    (haverage : ∀ a b, g.good a = true → g.good b = true → ∃ c, g.average a b = .ok c ∧ P c)
    (before row : List α) :
    ∃ out, g.repairFrom before row = .ok out ∧ out.length = row.length ∧ ∀ y ∈ out, P y := by
  induction row generalizing before with
  | nil => exact ⟨[], rfl, rfl, by simp⟩
  | cons x rest ih =>
      have hfill : ∃ y, g.fill (before.find? g.good) (rest.find? g.good) = .ok y ∧ P y := by
        cases hlast : before.find? g.good with
        | none =>
            cases hnext : rest.find? g.good with
            | none => exact ⟨g.zero, rfl, hzero⟩
            | some b => exact ⟨b, rfl, hgood b (.inl (List.find?_some hnext))⟩
        | some a =>
            cases hnext : rest.find? g.good with
            | none => exact ⟨a, rfl, hgood a (.inl (List.find?_some hlast))⟩
            | some b => exact haverage a b (List.find?_some hlast) (List.find?_some hnext)
      have hstep : ∃ y, (if g.failed x then g.fill (before.find? g.good) (rest.find? g.good)
          else pure x) = .ok y ∧ P y := by
        cases hx : g.failed x with
        | true => exact hfill
        | false => exact ⟨x, rfl, hgood x (.inr hx)⟩
      obtain ⟨y, hy, hPy⟩ := hstep
      obtain ⟨more, hmore, hlength, hP⟩ := ih (y :: before)
      refine ⟨y :: more, ?_, by simp [hlength], by simpa using ⟨hPy, hP⟩⟩
      rw [repairFrom_cons, hy]
      exact bind_eq_ok_iff.mpr ⟨y, rfl, bind_eq_ok_iff.mpr ⟨more, hmore, rfl⟩⟩

/-- The average of two words is a word, so a row of words is repaired whatever it holds. -/
theorem exists_repairFrom_words (before row : List Int16) :
    ∃ out, wordGauge.repairFrom before row = .ok out ∧ out.length = row.length := by
  obtain ⟨out, hout, hlength, -⟩ := wordGauge.exists_repairFrom (P := fun _ => True) trivial
    (fun _ _ => trivial) (fun a b _ _ => ⟨(a + b) / 2, rfl, trivial⟩) before row
  exact ⟨out, hout, hlength⟩

/-- A row without failed readings is left as it is. -/
theorem Gauge.repairFrom_eq_self {row : List α} (h : ∀ x ∈ row, g.failed x = false)
    (before : List α) : g.repairFrom before row = .ok row := by
  induction row generalizing before with
  | nil => rfl
  | cons x rest ih =>
      rw [repairFrom_cons, h x List.mem_cons_self]
      exact bind_eq_ok_iff.mpr ⟨x, rfl, bind_eq_ok_iff.mpr
        ⟨rest, ih (fun y hy => h y (List.mem_cons_of_mem x hy)) (x :: before), rfl⟩⟩

/-! ### Exact readings -/

/-- Readings that are fractions, averaged without rounding. -/
def exactGauge : Gauge ℚ :=
  { failed := fun a => a < 0
    good := fun a => 0 ≤ a
    average := fun a b => .ok ((a + b) / 2)
    zero := 0 }

/-- The gauge with exact numbers is fair. -/
theorem exactGauge_fair : exactGauge.Fair where
  good_iff x := by simp [exactGauge]
  failed_eq x := by simp [exactGauge, ← not_le]
  between_average {a b c} _ _ hc _ := by
    obtain rfl : (a + b) / 2 = c := Except.ok.inj hc
    rcases le_total a b with h | h
    · exact .inl ⟨by linarith, by linarith⟩
    · exact .inr ⟨by linarith, by linarith⟩

/-- With exact numbers every row can be repaired. -/
theorem exists_repair_exact (row : List ℚ) :
    ∃ out, exactGauge.repair row = .ok out ∧ (∀ y ∈ out, exactGauge.good y = true) ∧
      exactGauge.Mended none row out := by
  have haverage : ∀ a b, exactGauge.good a = true → exactGauge.good b = true →
      ∃ c, exactGauge.average a b = .ok c ∧ exactGauge.good c = true := by
    intro a b ha hb
    have ha' : 0 ≤ a := (exactGauge_fair.good_iff a).mp ha
    have hb' : 0 ≤ b := (exactGauge_fair.good_iff b).mp hb
    have hc : 0 ≤ (a + b) / 2 := by linarith
    exact ⟨(a + b) / 2, rfl, (exactGauge_fair.good_iff _).mpr hc⟩
  have hgood : ∀ x, exactGauge.good x = true ∨ exactGauge.failed x = false →
      exactGauge.good x = true := by
    intro x hx
    simpa [exactGauge_fair.failed_eq x] using hx
  obtain ⟨out, hout, -, hgoods⟩ :=
    exactGauge.exists_repairFrom (by simp [exactGauge]) hgood haverage [] row
  exact ⟨out, hout, hgoods, Gauge.mended_repairFrom exactGauge_fair (.inl rfl) hout hgoods⟩

/-- A copied row is repaired without inventing values: the row itself is left alone, good readings
are kept, and what stands for the failed ones lies between good ones, the nearest on either side if
there are two.  There is nothing to repair in the result. -/
theorem mended_within_readings (row : List ℚ) :
    ∃ out, exactGauge.mend (.copied row) = .ok { given := row, copy := some out } ∧
      out.length = row.length ∧
      (∀ (i : Nat) x, row[i]? = some x → 0 ≤ x → out[i]? = some x) ∧
      (∀ y ∈ out, 0 ≤ y) ∧
      ((∃ x ∈ row, 0 ≤ x) →
        ∃ lo hi, (row.filter fun x => 0 ≤ x).min? = some lo ∧
          (row.filter fun x => 0 ≤ x).max? = some hi ∧ ∀ y ∈ out, lo ≤ y ∧ y ≤ hi) ∧
      (∀ (i : Nat) x p n, row[i]? = some x → x < 0 → exactGauge.nearestBefore row i = some p →
        exactGauge.nearestAfter row i = some n →
        ∃ y, out[i]? = some y ∧ min p n ≤ y ∧ y ≤ max p n) ∧
      ((∀ x ∈ row, x < 0) → ∀ y ∈ out, y = 0) ∧
      exactGauge.mend (.copied out) = .ok (.copied out) := by
  obtain ⟨out, hout, hgoods, hmended⟩ := exists_repair_exact row
  have hgood : ∀ x : ℚ, exactGauge.good x = true ↔ 0 ≤ x := exactGauge_fair.good_iff
  have hbad : ∀ x : ℚ, exactGauge.good x = false ↔ x < 0 := fun x => by simp [exactGauge]
  refine ⟨out, ?_, hmended.length_eq, ?_, fun y hy => (hgood y).mp (hgoods y hy), ?_, ?_, ?_, ?_⟩
  · exact Gauge.mend_of_repair (r := .copied row) hout
  · intro i x hx hpos
    obtain ⟨y, hy, hkept, -⟩ := hmended.getElem? hx
    rw [hy, hkept ((hgood x).mpr hpos)]
  · rintro ⟨x, hx, hpos⟩
    have hne : row.filter (fun x => decide (0 ≤ x)) ≠ [] :=
      List.ne_nil_of_mem (List.mem_filter.mpr ⟨hx, by simpa using hpos⟩)
    obtain ⟨lo, hlo⟩ := Option.isSome_iff_exists.mp (List.isSome_min?_of_ne_nil hne)
    obtain ⟨hi, hhi⟩ := Option.isSome_iff_exists.mp (List.isSome_max?_of_ne_nil hne)
    exact ⟨lo, hi, hlo, hhi, hmended.bounded ⟨x, hx, (hgood x).mpr hpos⟩
      (List.min?_eq_some_iff.mp hlo).2 (List.max?_eq_some_iff.mp hhi).2⟩
  · intro i x p n hx hneg hp hn
    obtain ⟨y, hy, -, hfilled⟩ := hmended.getElem? hx
    have hbetween := hfilled ((hbad x).mpr hneg)
    rw [hp, hn] at hbetween
    refine ⟨y, hy, ?_⟩
    obtain ⟨h₁, h₂⟩ | ⟨h₁, h₂⟩ := hbetween
    · exact ⟨min_le_of_left_le h₁, le_max_of_le_right h₂⟩
    · exact ⟨min_le_of_right_le h₁, le_max_of_le_left h₂⟩
  · exact fun hneg => hmended.eq_zero fun x hx => (hbad x).mpr (hneg x hx)
  · have hself : exactGauge.repair out = .ok out :=
      Gauge.repairFrom_eq_self (fun y hy => by simp [exactGauge_fair.failed_eq, hgoods y hy]) []
    exact Gauge.mend_of_repair (r := .copied out) hself

end DronePilot.Robot
