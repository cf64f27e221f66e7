import DronePilot.Service.Pool
import Mathlib.Data.List.Nodup

/-!
# Ending leases

A clean-up first collects the leases that have run out, then ends them one after the other, striking
off whoever has lost the last one, and goes through the users once more at the end.  What comes of it
is said in one line: the leases that have not run out stay, in their order, and so do the users who
have one.

* `Pool.vacateAll_entries` — what ending leases one after the other leaves of the books.
* `Pool.strikeOff_remaining` — when the leases have been ended, nobody is left to be struck off.
* `Pool.cleanUp_eq` — a clean-up in one line.
-/

namespace DronePilot.Service.Pool

/-- The channels whose leases have run out, by user and service. -/
def expiredChannels (p : Pool) (now : Float) : List (String × Channel) :=
  (p.expiredLeases now).map Prod.snd

/-- The expired channels are those of the leases that have run out, user by user. -/
theorem expiredChannels_eq (p : Pool) (now : Float) :
    p.expiredChannels now = p.dedicated.entries.flatMap fun e =>
      (e.2.leases.entries.filter fun x => p.expired now x.2).map fun x => (x.1, x.2.channel) := by
  simp [expiredChannels, expiredLeases, List.map_flatMap, Function.comp_def]

/-- The leases that have run out, each by its user and its service. -/
def expiredKeys (p : Pool) (now : Float) : List (Identity × String) :=
  (p.expiredLeases now).map fun e => (e.1, e.2.1)

/-- The leases of a user that have not run out. -/
def unexpired (p : Pool) (now : Float) (t : Tenancy) : Tenancy :=
  { t with leases := t.leases.filter fun _ l => !p.expired now l }

/-- The leases that have not run out, without the users who have none left. -/
def remainingLeases (p : Pool) (now : Float) : Table Identity Tenancy :=
  (p.dedicated.mapValues fun _ t => p.unexpired now t).filter fun _ t => !t.leases.entries.isEmpty

/-- What a user has without some leases. -/
def without (ks : List (Identity × String)) (u : Identity) (t : Tenancy) : Tenancy :=
  { t with leases := t.leases.filter fun s _ => decide ((u, s) ∉ ks) }

/-- What is left of an entry in the books when leases have ended one after the other: nothing, if
the user has lost the last one. -/
def leftOf (ks : List (Identity × String)) (e : Identity × Tenancy) :
    Option (Identity × Tenancy) :=
  if e.1 ∈ ks.map Prod.fst ∧ (without ks e.1 e.2).leases.entries = [] then none
  else some (e.1, without ks e.1 e.2)

section

variable {d : Table Identity Tenancy} {u : Identity} {s : String} {t : Tenancy}
  {ks : List (Identity × String)} {k : Identity × String}

/-- Whoever has nothing to return keeps everything. -/
theorem without_of_not_mem (h : u ∉ ks.map Prod.fst) (t : Tenancy) : without ks u t = t := by
  have hleases : (t.leases.filter fun s _ => decide ((u, s) ∉ ks)) = t.leases := by
    refine Table.filter_eq_self fun e _ => decide_eq_true fun hmem => h ?_
    exact List.mem_map_of_mem hmem
  simp only [without, hleases]

/-- And stays in the table. -/
theorem leftOf_of_not_mem (h : u ∉ ks.map Prod.fst) (t : Tenancy) :
    leftOf ks (u, t) = some (u, t) := by
  simp only [leftOf, h, false_and, if_false, without_of_not_mem h]

theorem leftOf_nil (e : Identity × Tenancy) : leftOf [] e = some e :=
  leftOf_of_not_mem List.not_mem_nil e.2

/-- Leases are struck off one by one. -/
theorem without_cons (k : Identity × String) (ks : List (Identity × String)) (u : Identity)
    (t : Tenancy) : without (k :: ks) u t = without ks u (without [k] u t) := by
  have hleases : (without (k :: ks) u t).leases = (without ks u (without [k] u t)).leases := by
    apply Table.ext_entries
    simp only [without, Table.filter, List.filter_filter]
    refine List.filter_congr fun e _ => ?_
    by_cases hk : (u, e.1) = k <;> simp [hk]
  exact congrArg (Tenancy.mk t.name) hleases

/-- Ending one lease and then others is ending all of them. -/
theorem leftOf_cons (k : Identity × String) (ks : List (Identity × String))
    (e : Identity × Tenancy) : leftOf (k :: ks) e = (leftOf [k] e).bind (leftOf ks) := by
  obtain ⟨u, t⟩ := e
  by_cases hu : u = k.1
  · subst hu
    by_cases hlast : (without [k] k.1 t).leases.entries = []
    · have hnone : (without (k :: ks) k.1 t).leases.entries = [] := by
        rw [without_cons, without, Table.entries_filter, hlast, List.filter_nil]
      simp [leftOf, hlast, hnone]
    · have hfirst : leftOf [k] (k.1, t) = some (k.1, without [k] k.1 t) := by
        simp [leftOf, hlast]
      rw [hfirst, Option.bind_some, leftOf, without_cons]
      by_cases hmore : k.1 ∈ ks.map Prod.fst
      · simp [leftOf, hmore]
      · rw [leftOf_of_not_mem hmore]
        simp [without_of_not_mem hmore, hlast]
  · have hother : u ∉ [k].map Prod.fst := by simpa using hu
    have hmem : u ∈ (k :: ks).map Prod.fst ↔ u ∈ ks.map Prod.fst := by
      rw [List.map_cons, List.mem_cons, or_iff_right hu]
    rw [leftOf_of_not_mem hother, Option.bind_some, leftOf, leftOf, without_cons,
      without_of_not_mem hother]
    simp only [hmem]

/-- A lease that is in the books can be ended. -/
theorem vacate_entries (hentry : (u, t) ∈ d.entries) (hlease : s ∈ t.leases.keys) :
    ∃ d', vacate d u s = .ok d' ∧ d'.entries = d.entries.filterMap (leftOf [(u, s)]) := by
  have hfind : d.find? u = some t := Table.find?_eq_some_iff.mpr hentry
  have hcontains : t.leases.contains s = true := by simpa [Table.contains] using hlease
  have hwithout : without [(u, s)] u t = { t with leases := t.leases.erase s } := by
    simp [without, Table.erase]
  -- The entry of the user is the only one that changes.
  have hchanged : ∀ e ∈ d.entries, leftOf [(u, s)] e =
      if e.1 = u then
        if (t.leases.erase s).entries = [] then none
        else some (u, { t with leases := t.leases.erase s })
      else some e := by
    intro e he
    by_cases hu : e.1 = u
    · obtain ⟨v, t'⟩ := e
      obtain rfl : v = u := hu
      have hsame : some t' = some t := (Table.find?_eq_some_iff.mpr he).symm.trans hfind
      cases hsame
      simp [leftOf, hwithout]
    · rw [if_neg hu]
      exact leftOf_of_not_mem (by simpa using hu) e.2
  rw [List.filterMap_congr hchanged]
  unfold vacate
  simp only [hfind, hcontains, if_true, List.isEmpty_iff]
  by_cases hlast : (t.leases.erase s).entries = []
  · refine ⟨d.erase u, by rw [if_pos hlast], ?_⟩
    rw [Table.erase, Table.entries_filter, ← List.filterMap_eq_filter]
    refine List.filterMap_congr fun e _ => ?_
    by_cases hu : e.1 = u <;> simp [hu, hlast, Option.guard]
  · refine ⟨d.insert u _, by rw [if_neg hlast], ?_⟩
    have hmem : u ∈ d.keys := List.mem_map_of_mem hentry
    simp only [Table.insert, hmem, dite_true, Table.entries_mapValues]
    rw [← List.filterMap_eq_map]
    refine List.filterMap_congr fun e _ => ?_
    by_cases hu : e.1 = u <;> simp [hu, hlast]

/-- **Ending leases one after the other.**  Leases that are in the books can all be ended, each once,
and what is left of every entry is what it has without them. -/
theorem vacateAll_entries (hnodup : ks.Nodup)
    (hks : ∀ k ∈ ks, ∃ t, (k.1, t) ∈ d.entries ∧ k.2 ∈ t.leases.keys) :
    ∃ d', vacateAll ks d = .ok d' ∧ d'.entries = d.entries.filterMap (leftOf ks) := by
  induction ks generalizing d with
  | nil =>
      refine ⟨d, rfl, ?_⟩
      rw [List.filterMap_congr fun e _ => leftOf_nil e, List.filterMap_some]
  | cons k ks ih =>
      obtain ⟨hk, hrest⟩ := List.forall_mem_cons.mp hks
      obtain ⟨hfresh, hnodup⟩ := List.nodup_cons.mp hnodup
      obtain ⟨t, hentry, hlease⟩ := hk
      obtain ⟨d₁, hvacate, hentries⟩ := vacate_entries hentry hlease
      -- The other leases are still in the books.
      have hstill : ∀ k' ∈ ks, ∃ t', (k'.1, t') ∈ d₁.entries ∧ k'.2 ∈ t'.leases.keys := by
        intro k' hk'
        obtain ⟨t', hentry', hlease'⟩ := hrest k' hk'
        have hne : k' ≠ k := fun heq => hfresh (heq ▸ hk')
        have hkept : k'.2 ∈ (without [k] k'.1 t').leases.keys := by
          obtain ⟨e, he, hkey⟩ := List.mem_map.mp hlease'
          refine List.mem_map.mpr ⟨e, List.mem_filter.mpr ⟨he, ?_⟩, hkey⟩
          simpa [hkey] using hne
        refine ⟨without [k] k'.1 t', ?_, hkept⟩
        rw [hentries, List.mem_filterMap]
        refine ⟨(k'.1, t'), hentry', ?_⟩
        have hsome : (without [k] k'.1 t').leases.entries ≠ [] := by
          obtain ⟨e, he, -⟩ := List.mem_map.mp hkept
          exact List.ne_nil_of_mem he
        simp [leftOf, hsome]
      obtain ⟨d₂, hall, hentries'⟩ := ih hnodup hstill
      refine ⟨d₂, ?_, ?_⟩
      · simp [vacateAll, hvacate, hall, bind, Except.bind]
      · rw [hentries', hentries, List.filterMap_filterMap]
        exact List.filterMap_congr fun e _ => (leftOf_cons k ks e).symm

end

/-! ### What a clean-up leaves -/

section

variable {p : Pool} {now : Float} {u : Identity} {s : String} {t : Tenancy} {l : Lease}

/-- A lease is among the expired ones if it has run out. -/
theorem mem_expiredKeys {k : Identity × String} :
    k ∈ p.expiredKeys now ↔ ∃ t l, (k.1, t) ∈ p.dedicated.entries ∧ (k.2, l) ∈ t.leases.entries ∧
      p.expired now l = true := by
  obtain ⟨u, s⟩ := k
  simp only [expiredKeys, expiredLeases, List.mem_map, List.mem_flatMap, List.mem_filter,
    Prod.exists, Prod.mk.injEq]
  constructor
  · rintro ⟨_, _, _, ⟨_, t, hentry, _, l, ⟨hlease, hexpired⟩, rfl, rfl, rfl⟩, rfl, rfl⟩
    exact ⟨t, l, hentry, hlease, hexpired⟩
  · rintro ⟨t, l, hentry, hlease, hexpired⟩
    exact ⟨u, s, l.channel, ⟨u, t, hentry, s, l, ⟨hlease, hexpired⟩, rfl, rfl, rfl⟩, rfl, rfl⟩

/-- Whether a lease has run out is asked of each lease once. -/
theorem mem_expiredKeys_iff (now : Float) (hentry : (u, t) ∈ p.dedicated.entries)
    (hlease : (s, l) ∈ t.leases.entries) :
    (u, s) ∈ p.expiredKeys now ↔ p.expired now l = true := by
  rw [mem_expiredKeys]
  constructor
  · rintro ⟨t', l', hentry', hlease', hexpired⟩
    have ht : some t' = some t :=
      (Table.find?_eq_some_iff.mpr hentry').symm.trans (Table.find?_eq_some_iff.mpr hentry)
    cases ht
    have hl : some l' = some l :=
      (Table.find?_eq_some_iff.mpr hlease').symm.trans (Table.find?_eq_some_iff.mpr hlease)
    cases hl
    exact hexpired
  · intro hexpired
    exact ⟨t, l, hentry, hlease, hexpired⟩

/-- Each is there once. -/
theorem nodup_expiredKeys (p : Pool) (now : Float) : (p.expiredKeys now).Nodup := by
  have hkeys : p.expiredKeys now = p.dedicated.entries.flatMap fun e =>
      ((e.2.leases.filter fun _ l => p.expired now l).keys).map fun s => (e.1, s) := by
    simp [expiredKeys, expiredLeases, List.map_flatMap, Table.keys, Table.entries_filter,
      Function.comp_def]
  rw [hkeys, List.nodup_flatMap]
  refine ⟨fun e _ => ?_, ?_⟩
  · exact (e.2.leases.filter _).nodup.map fun a b hab => (Prod.mk.inj hab).2
  · have hdistinct := List.pairwise_map.mp p.dedicated.nodup
    refine hdistinct.imp fun {a b} hab k ha hb => ?_
    obtain ⟨_, -, rfl⟩ := List.mem_map.mp ha
    obtain ⟨_, -, heq⟩ := List.mem_map.mp hb
    exact hab (Prod.mk.inj heq).1.symm

/-- Without the expired ones, a user has the leases that have not run out. -/
theorem without_expiredKeys (hentry : (u, t) ∈ p.dedicated.entries) :
    without (p.expiredKeys now) u t = p.unexpired now t := by
  have hleases : (without (p.expiredKeys now) u t).leases = (p.unexpired now t).leases := by
    apply Table.ext_entries
    rw [without, unexpired, Table.entries_filter, Table.entries_filter]
    refine List.filter_congr fun e he => ?_
    have hiff := mem_expiredKeys_iff now hentry he
    cases hexpired : p.expired now e.2 with
    | true => simpa using hiff.mpr hexpired
    | false => simpa [hexpired] using hiff
  exact congrArg (Tenancy.mk t.name) hleases

/-- **The first pass of a clean-up** ends all leases that have run out, and leaves those that have
not. -/
theorem vacateAll_expiredKeys (now : Float)
    (hoccupied : ∀ e ∈ p.dedicated.entries, e.2.leases.entries ≠ []) :
    vacateAll (p.expiredKeys now) p.dedicated = .ok (p.remainingLeases now) := by
  have hks : ∀ k ∈ p.expiredKeys now, ∃ t, (k.1, t) ∈ p.dedicated.entries ∧ k.2 ∈ t.leases.keys := by
    intro k hk
    obtain ⟨t, l, hentry, hlease, -⟩ := mem_expiredKeys.mp hk
    exact ⟨t, hentry, List.mem_map_of_mem hlease⟩
  obtain ⟨d, hvacate, hentries⟩ := vacateAll_entries (nodup_expiredKeys p now) hks
  rw [hvacate]
  refine congrArg Except.ok (Table.ext_entries ?_)
  rw [hentries, remainingLeases, Table.entries_filter, Table.entries_mapValues, List.filter_map,
    ← List.filterMap_eq_filter, ← List.filterMap_eq_map, List.filterMap_filterMap]
  refine List.filterMap_congr fun e he => ?_
  rw [leftOf, without_expiredKeys he]
  by_cases hempty : (p.unexpired now e.2).leases.entries = []
  · -- A user of whom nothing is left had a lease, and it has run out.
    obtain ⟨⟨s, l⟩, hlease⟩ := List.exists_mem_of_ne_nil _ (hoccupied e he)
    have hexpired : p.expired now l = true := by
      by_contra hlive
      have hmem : (s, l) ∈ (p.unexpired now e.2).leases.entries :=
        List.mem_filter.mpr ⟨hlease, by simpa using hlive⟩
      rw [hempty] at hmem
      cases hmem
    have huser : e.1 ∈ (p.expiredKeys now).map Prod.fst :=
      List.mem_map_of_mem ((mem_expiredKeys_iff now he hlease).mpr hexpired)
    simp [huser, hempty, Option.guard]
  · simp [hempty, Option.guard]

/-- Of a user's leases no more are counted than have run out. -/
theorem countP_expiredLeases_le (now : Float) (hentry : (u, t) ∈ p.dedicated.entries) :
    ((p.expiredLeases now).countP fun e => e.1.equals u) ≤
      t.leases.entries.countP fun e => p.expired now e.2 := by
  obtain ⟨before, after, hsplit, hbefore, hafter⟩ := Table.exists_around hentry
  have hothers : ∀ entries : List (Identity × Tenancy), u ∉ entries.map Prod.fst →
      ((entries.flatMap fun e => (e.2.leases.entries.filter fun x => p.expired now x.2).map
        fun x => (e.1, x.1, x.2.channel)).countP fun e => e.1.equals u) = 0 := by
    intro entries hu
    rw [List.countP_eq_zero]
    intro x hx hequals
    obtain ⟨e, he, hx⟩ := List.mem_flatMap.mp hx
    obtain ⟨y, -, rfl⟩ := List.mem_map.mp hx
    have heq : e.1 = u := by
      unfold Identity.equals at hequals
      split at hequals
      · cases hequals
      · exact of_decide_eq_true hequals
    exact hu (heq ▸ List.mem_map_of_mem he)
  rw [expiredLeases, hsplit, List.flatMap_append, List.flatMap_cons, List.countP_append,
    List.countP_append, hothers before hbefore, hothers after hafter, Nat.zero_add, Nat.add_zero]
  calc
    _ ≤ ((t.leases.entries.filter fun e => p.expired now e.2).map
          fun e => (u, e.1, e.2.channel)).length := List.countP_le_length
    _ = t.leases.entries.countP fun e => p.expired now e.2 := by
      rw [List.length_map, List.countP_eq_length_filter]

/-- **The second pass of a clean-up** finds nobody: whoever has lost all leases is no longer in the
books. -/
theorem not_mem_of_mem_expiredUsers (hu : u ∈ p.expiredUsers now) :
    u ∉ (p.remainingLeases now).keys := by
  intro hmem
  obtain ⟨⟨_, t⟩, hfiltered, rfl⟩ := List.mem_map.mp hu
  obtain ⟨hentry, hsize⟩ := List.mem_filter.mp hfiltered
  obtain ⟨e, he, hkey⟩ := List.mem_map.mp hmem
  obtain ⟨hmapped, hsome⟩ := List.mem_filter.mp he
  obtain ⟨⟨v, t'⟩, hentry', rfl⟩ := List.mem_map.mp hmapped
  obtain rfl : v = _ := hkey
  have ht : some t' = some t :=
    (Table.find?_eq_some_iff.mpr hentry').symm.trans (Table.find?_eq_some_iff.mpr hentry)
  cases ht
  -- A lease that has not run out is not counted.
  obtain ⟨x, hx⟩ := List.exists_mem_of_ne_nil (p.unexpired now t).leases.entries (by simpa using hsome)
  obtain ⟨hlease, hlive⟩ := List.mem_filter.mp hx
  have hfewer : (t.leases.entries.countP fun e => p.expired now e.2) ≠ t.leases.entries.length := by
    intro hsame
    have hexpired := List.countP_eq_length.mp hsame x hlease
    simp [hexpired] at hlive
  have hmost : (t.leases.entries.countP fun e => p.expired now e.2) ≤ t.leases.entries.length :=
    List.countP_le_length
  have hcounted := countP_expiredLeases_le now hentry
  have hall : t.leases.entries.length = (p.expiredLeases now).countP fun e => e.1.equals v := by
    simpa [Table.size] using hsize
  omega

/-- Striking off users that are not in the table changes nothing. -/
theorem strikeOff_eq_self {users : List Identity} {d : Table Identity Tenancy}
    (h : ∀ u ∈ users, u ∉ d.keys) : strikeOff users d = d := by
  induction users with
  | nil => rfl
  | cons u users ih =>
      obtain ⟨hu, hrest⟩ := List.forall_mem_cons.mp h
      have hcontains : d.contains u = false := by simpa [Table.contains] using hu
      rw [strikeOff, hcontains]
      exact ih hrest

/-- **A clean-up in one line.**  It puts the channels back whose leases have run out, and the other
leases stay. -/
theorem cleanUp_eq (now : Float) (hoccupied : ∀ e ∈ p.dedicated.entries, e.2.leases.entries ≠ []) :
    p.cleanUp now =
      if now - p.lastCleanUp > p.leaseTime then do
        let q ← putAll (p.expiredChannels now) { p with lastCleanUp := now }
        pure { q with dedicated := p.remainingLeases now }
      else .ok p := by
  have hvacate := vacateAll_expiredKeys now hoccupied
  have hstrike : strikeOff (p.expiredUsers now) (p.remainingLeases now) = p.remainingLeases now :=
    strikeOff_eq_self fun u hu => not_mem_of_mem_expiredUsers hu
  rw [expiredKeys] at hvacate
  simp only [cleanUp, hvacate, expiredChannels, bind, Except.bind, hstrike]

end

end DronePilot.Service.Pool
