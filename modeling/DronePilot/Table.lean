/-!
# Tables that remember the order of insertion

A table holds one value for each key and lists its keys in the order in which they were first
inserted.  Giving a key a new value keeps its place; a key that was erased and inserted again goes
to the end.  The main statements say what each operation does to look-up and to the list of keys.
-/

namespace DronePilot

/-- Values by key, in the order in which the keys were inserted. -/
structure Table (κ : Type) (α : Type) where
  entries : List (κ × α)
  nodup : (entries.map Prod.fst).Nodup

namespace Table

variable {κ : Type} {α : Type}

/-- The table without entries. -/
def empty : Table κ α := ⟨[], by simp⟩

instance : EmptyCollection (Table κ α) := ⟨empty⟩

instance : Inhabited (Table κ α) := ⟨empty⟩

/-- The keys, oldest first. -/
def keys (t : Table κ α) : List κ := t.entries.map Prod.fst

/-- The values, in the order of their keys. -/
def values (t : Table κ α) : List α := t.entries.map Prod.snd

/-- The number of entries. -/
def size (t : Table κ α) : Nat := t.entries.length

/-- Changes every value and no key. -/
def mapValues {β : Type} (f : κ → α → β) (t : Table κ α) : Table κ β :=
  ⟨t.entries.map fun e => (e.1, f e.1 e.2), by
    have h : ((t.entries.map fun e => (e.1, f e.1 e.2)).map Prod.fst) = t.entries.map Prod.fst := by
      simp [Function.comp_def]
    rw [h]
    exact t.nodup⟩

/-- Keeps the entries with the property. -/
def filter (p : κ → α → Bool) (t : Table κ α) : Table κ α :=
  ⟨t.entries.filter fun e => p e.1 e.2, t.nodup.sublist (List.filter_sublist.map Prod.fst)⟩

theorem entries_filter (p : κ → α → Bool) (t : Table κ α) :
    (t.filter p).entries = t.entries.filter fun e => p e.1 e.2 := rfl

theorem entries_mapValues {β : Type} (f : κ → α → β) (t : Table κ α) :
    (t.mapValues f).entries = t.entries.map fun e => (e.1, f e.1 e.2) := rfl

theorem ext_entries {t u : Table κ α} (h : t.entries = u.entries) : t = u := by
  cases t
  cases u
  cases h
  rfl

/-- Keeping entries that all have the property keeps the table. -/
theorem filter_eq_self {p : κ → α → Bool} {t : Table κ α} (h : ∀ e ∈ t.entries, p e.1 e.2 = true) :
    t.filter p = t :=
  ext_entries (List.filter_eq_self.mpr h)

/-- The key of an entry is nowhere before it and nowhere after it. -/
theorem exists_around {t : Table κ α} {k : κ} {v : α} (h : (k, v) ∈ t.entries) :
    ∃ before after, t.entries = before ++ (k, v) :: after ∧ k ∉ before.map Prod.fst ∧
      k ∉ after.map Prod.fst := by
  obtain ⟨before, after, hsplit⟩ := List.append_of_mem h
  have hkeys := t.nodup
  rw [hsplit, List.map_append, List.map_cons, List.nodup_append, List.nodup_cons] at hkeys
  obtain ⟨-, ⟨hafter, -⟩, hbefore⟩ := hkeys
  exact ⟨before, after, hsplit, fun hk => hbefore k hk k List.mem_cons_self rfl, hafter⟩

variable [DecidableEq κ]

/-- The value of a key. -/
def find? (t : Table κ α) (k : κ) : Option α :=
  (t.entries.find? fun e => decide (e.1 = k)).map Prod.snd

/-- Whether a key has a value. -/
def contains (t : Table κ α) (k : κ) : Bool :=
  decide (k ∈ t.keys)

/-- Removes a key and its value. -/
def erase (t : Table κ α) (k : κ) : Table κ α :=
  t.filter fun k' _ => decide (k' ≠ k)

/-- Gives a key a value: in its place if it has one already, at the end otherwise. -/
def insert (t : Table κ α) (k : κ) (v : α) : Table κ α :=
  if h : k ∈ t.keys then t.mapValues fun k' old => if k' = k then v else old
  else ⟨t.entries ++ [(k, v)], by
    rw [List.map_append, List.nodup_append]
    refine ⟨t.nodup, by simp, ?_⟩
    intro a ha b hb hab
    simp only [List.map_cons, List.map_nil, List.mem_singleton] at hb
    subst hab hb
    exact h ha⟩

/-- The table of a list of pairs, later pairs winning. -/
def ofList (pairs : List (κ × α)) : Table κ α :=
  pairs.foldl (fun t e => t.insert e.1 e.2) empty

@[simp]
theorem find?_empty (k : κ) : (empty : Table κ α).find? k = none := rfl

/-- A key that is new goes to the end of the keys, an old one stays where it is. -/
theorem keys_insert (t : Table κ α) (k : κ) (v : α) :
    (t.insert k v).keys = if k ∈ t.keys then t.keys else t.keys ++ [k] := by
  unfold insert
  split
  · simp [keys, mapValues, Function.comp_def]
  · simp [keys]

theorem find?_eq_none_iff {t : Table κ α} {k : κ} : t.find? k = none ↔ k ∉ t.keys := by
  simp only [find?, keys, Option.map_eq_none_iff, List.find?_eq_none, decide_eq_true_eq,
    List.mem_map, not_exists, not_and]

theorem contains_eq_false_iff {t : Table κ α} {k : κ} :
    t.contains k = false ↔ t.find? k = none := by
  rw [find?_eq_none_iff]
  simp [contains]

/-- After an insertion the key has the new value. -/
theorem find?_insert_self (t : Table κ α) (k : κ) (v : α) : (t.insert k v).find? k = some v := by
  unfold insert
  split
  · rename_i h
    obtain ⟨e, he, hk⟩ := List.mem_map.mp h
    unfold find? mapValues
    rw [List.find?_map, Option.map_map]
    cases hf : t.entries.find? ((fun e : κ × α => decide (e.1 = k)) ∘
        fun e : κ × α => (e.1, if e.1 = k then v else e.2)) with
    | none =>
      rw [List.find?_eq_none] at hf
      exact absurd hk (by simpa using hf e he)
    | some e' =>
      have := List.find?_some hf
      simp only [Function.comp_apply, decide_eq_true_eq] at this
      simp [this]
  · rename_i h
    have hn : t.entries.find? (fun e => decide (e.1 = k)) = none := by
      rw [List.find?_eq_none]
      intro e he hk
      exact h (List.mem_map.mpr ⟨e, he, of_decide_eq_true hk⟩)
    simp [find?, List.find?_append, hn]

/-- An insertion leaves the other keys alone. -/
theorem find?_insert_of_ne (t : Table κ α) {k k' : κ} (v : α) (h : k' ≠ k) :
    (t.insert k v).find? k' = t.find? k' := by
  unfold insert
  split
  · unfold find? mapValues
    rw [List.find?_map, Option.map_map]
    have hp : ((fun e : κ × α => decide (e.1 = k')) ∘
        fun e : κ × α => (e.1, if e.1 = k then v else e.2)) = fun e => decide (e.1 = k') := by
      funext e; rfl
    rw [hp]
    cases hf : t.entries.find? (fun e => decide (e.1 = k')) with
    | none => rfl
    | some e =>
      have he : e.1 = k' := by simpa using List.find?_some hf
      simp [he, h]
  · have hn : List.find? (fun e : κ × α => decide (e.1 = k')) [(k, v)] = none := by
      simp [Ne.symm h]
    simp [find?, List.find?_append, hn]

/-- Looking a key up finds the value that is listed with it. -/
theorem find?_eq_some_iff {t : Table κ α} {k : κ} {v : α} :
    t.find? k = some v ↔ (k, v) ∈ t.entries := by
  have hmem : ∀ {w}, t.find? k = some w → (k, w) ∈ t.entries := by
    intro w h
    obtain ⟨e, he, rfl⟩ := Option.map_eq_some_iff.mp h
    have hk : e.1 = k := by simpa using List.find?_some he
    rw [← hk]
    exact List.mem_of_find?_eq_some he
  refine ⟨hmem, fun h => ?_⟩
  cases hf : t.find? k with
  | none => exact absurd (List.mem_map_of_mem h) (find?_eq_none_iff.mp hf)
  | some w =>
    obtain ⟨before, after, hsplit, hbefore, hafter⟩ := exists_around h
    have hw := hmem hf
    rw [hsplit, List.mem_append, List.mem_cons] at hw
    rcases hw with hw | hw | hw
    · exact absurd (List.mem_map_of_mem hw) hbefore
    · rw [(Prod.mk.inj hw).2]
    · exact absurd (List.mem_map_of_mem hw) hafter

/-- Changing the values changes what is found. -/
theorem find?_mapValues {β : Type} (t : Table κ α) (f : κ → α → β) (k : κ) :
    (t.mapValues f).find? k = (t.find? k).map (f k) := by
  ext w
  rw [Option.map_eq_some_iff]
  simp only [find?_eq_some_iff, mapValues, List.mem_map, Prod.mk.injEq, Prod.exists]
  constructor
  · rintro ⟨k', v, hv, rfl, rfl⟩
    exact ⟨v, hv, rfl⟩
  · rintro ⟨v, hv, rfl⟩
    exact ⟨k, v, hv, rfl, rfl⟩

/-- Among the entries with a property a key is found if its value has the property. -/
theorem find?_filter (t : Table κ α) (p : κ → α → Bool) (k : κ) :
    (t.filter p).find? k = (t.find? k).filter (p k) := by
  ext w
  rw [Option.filter_eq_some_iff]
  simp only [find?_eq_some_iff, filter, List.mem_filter]

/-- A new value takes the place of the old one. -/
theorem exists_entries_insert {t : Table κ α} {k : κ} {v : α} (h : t.find? k = some v) :
    ∃ before after, t.entries = before ++ (k, v) :: after ∧
      ∀ w, (t.insert k w).entries = before ++ (k, w) :: after := by
  have hentry := find?_eq_some_iff.mp h
  obtain ⟨before, after, hsplit, hbefore, hafter⟩ := exists_around hentry
  refine ⟨before, after, hsplit, fun w => ?_⟩
  have hkeep : ∀ l : List (κ × α), k ∉ l.map Prod.fst →
      l.map (fun e => (e.1, if e.1 = k then w else e.2)) = l := by
    intro l hl
    conv => rhs; rw [← List.map_id l]
    apply List.map_congr_left
    intro e he
    have hne : e.1 ≠ k := fun hk => hl (hk ▸ List.mem_map_of_mem he)
    simp [hne]
  have hmem : k ∈ t.keys := List.mem_map_of_mem hentry
  simp only [insert, hmem, dite_true, mapValues, hsplit, List.map_append, List.map_cons, if_true]
  rw [hkeep before hbefore, hkeep after hafter]

/-- A key that is new goes to the end with its value. -/
theorem entries_insert_of_none {t : Table κ α} {k : κ} (h : t.find? k = none) (v : α) :
    (t.insert k v).entries = t.entries ++ [(k, v)] := by
  simp [insert, find?_eq_none_iff.mp h]

/-- An entry after an insertion is the new one or an old one. -/
theorem mem_entries_insert {t : Table κ α} {k : κ} {v : α} {e : κ × α}
    (h : e ∈ (t.insert k v).entries) : e = (k, v) ∨ e ∈ t.entries := by
  obtain ⟨k', v'⟩ := e
  have hfind := find?_eq_some_iff.mpr h
  by_cases hk : k' = k
  · subst hk
    rw [find?_insert_self, Option.some.injEq] at hfind
    exact .inl (by rw [hfind])
  · rw [find?_insert_of_ne t v hk] at hfind
    exact .inr (find?_eq_some_iff.mp hfind)

theorem entries_insert_ne_nil (t : Table κ α) (k : κ) (v : α) : (t.insert k v).entries ≠ [] :=
  List.ne_nil_of_mem (find?_eq_some_iff.mp (find?_insert_self t k v))

theorem size_insert (t : Table κ α) (k : κ) (v : α) :
    (t.insert k v).size = if k ∈ t.keys then t.size else t.size + 1 := by
  unfold insert
  split
  · simp [size, mapValues]
  · simp [size]

/-- A function of the values can be applied before an insertion or after it. -/
theorem mapValues_insert {β : Type} (f : α → β) (t : Table κ α) (k : κ) (v : α) :
    (t.insert k v).mapValues (fun _ => f) = (t.mapValues fun _ => f).insert k (f v) := by
  have hkeys : (t.mapValues fun _ => f).keys = t.keys := by simp [keys, mapValues, Function.comp_def]
  apply ext_entries
  by_cases hk : k ∈ t.keys
  · simp only [insert, hkeys, hk, dite_true, entries_mapValues, List.map_map]
    apply List.map_congr_left
    intro e _
    simp only [Function.comp_apply, apply_ite f]
  · simp [insert, hkeys, hk, entries_mapValues]

/-- Gives keys values, one after the other. -/
def insertAll (t : Table κ α) (pairs : List (κ × α)) : Table κ α :=
  pairs.foldl (fun t e => t.insert e.1 e.2) t

theorem insertAll_append (t : Table κ α) (first second : List (κ × α)) :
    t.insertAll (first ++ second) = (t.insertAll first).insertAll second :=
  List.foldl_append

theorem insertAll_cons (t : Table κ α) (e : κ × α) (rest : List (κ × α)) :
    t.insertAll (e :: rest) = (t.insert e.1 e.2).insertAll rest := rfl

theorem mapValues_insertAll {β : Type} (f : α → β) (t : Table κ α) (pairs : List (κ × α)) :
    (t.insertAll pairs).mapValues (fun _ => f) =
      (t.mapValues fun _ => f).insertAll (pairs.map fun e => (e.1, f e.2)) := by
  induction pairs generalizing t with
  | nil => rfl
  | cons e rest ih =>
    rw [insertAll_cons, ih, mapValues_insert]
    rfl

theorem mem_entries_insertAll {t : Table κ α} {pairs : List (κ × α)} {e : κ × α}
    (h : e ∈ (t.insertAll pairs).entries) : e ∈ pairs ∨ e ∈ t.entries := by
  induction pairs generalizing t with
  | nil => exact .inr h
  | cons e' rest ih =>
    rw [insertAll_cons] at h
    rcases ih h with hrest | hfirst
    · exact .inl (List.mem_cons_of_mem e' hrest)
    · rcases mem_entries_insert hfirst with rfl | hold
      · exact .inl List.mem_cons_self
      · exact .inr hold

/-- Values for keys that are new and different are all kept, in order. -/
theorem entries_insertAll {t : Table κ α} {pairs : List (κ × α)} (hnodup : (pairs.map Prod.fst).Nodup)
    (hnew : ∀ e ∈ pairs, e.1 ∉ t.keys) : (t.insertAll pairs).entries = t.entries ++ pairs := by
  induction pairs generalizing t with
  | nil => simp [insertAll]
  | cons e rest ih =>
    obtain ⟨hfirst, hrest⟩ := List.nodup_cons.mp hnodup
    have he : e.1 ∉ t.keys := hnew e List.mem_cons_self
    have hentries : (t.insert e.1 e.2).entries = t.entries ++ [e] :=
      entries_insert_of_none (find?_eq_none_iff.mpr he) e.2
    have hlater : ∀ e' ∈ rest, e'.1 ∉ (t.insert e.1 e.2).keys := by
      intro e' he'
      rw [keys_insert, if_neg he, List.mem_append, List.mem_singleton]
      rintro (hold | hsame)
      · exact hnew e' (List.mem_cons_of_mem e he') hold
      · exact hfirst (hsame ▸ List.mem_map_of_mem he')
    rw [insertAll_cons, ih hrest hlater, hentries, List.append_assoc, List.singleton_append]

theorem size_insertAll_le (t : Table κ α) (pairs : List (κ × α)) :
    (t.insertAll pairs).size ≤ t.size + pairs.length := by
  induction pairs generalizing t with
  | nil => exact Nat.le_refl _
  | cons e rest ih =>
    have h := ih (t.insert e.1 e.2)
    have hstep : (t.insert e.1 e.2).size ≤ t.size + 1 := by
      rw [size_insert]
      split <;> omega
    rw [insertAll_cons, List.length_cons]
    omega

/-- A key that is there already, or comes twice, costs an entry. -/
theorem size_insertAll_lt {t : Table κ α} {pairs : List (κ × α)}
    (h : ¬((pairs.map Prod.fst).Nodup ∧ ∀ e ∈ pairs, e.1 ∉ t.keys)) :
    (t.insertAll pairs).size < t.size + pairs.length := by
  induction pairs generalizing t with
  | nil => exact absurd (by simp) h
  | cons e rest ih =>
    rw [insertAll_cons, List.length_cons]
    by_cases he : e.1 ∈ t.keys
    · have hle := size_insertAll_le (t.insert e.1 e.2) rest
      rw [size_insert, if_pos he] at hle
      omega
    · have hlt : ((t.insert e.1 e.2).insertAll rest).size < (t.insert e.1 e.2).size + rest.length := by
        apply ih
        rintro ⟨hnodup, hnew⟩
        have hkeys : ∀ e' ∈ rest, e'.1 ∉ t.keys ∧ e'.1 ≠ e.1 := by
          intro e' he'
          have := hnew e' he'
          rw [keys_insert, if_neg he, List.mem_append, List.mem_singleton] at this
          exact ⟨fun hold => this (.inl hold), fun hsame => this (.inr hsame)⟩
        refine h ⟨List.nodup_cons.mpr ⟨?_, hnodup⟩, ?_⟩
        · intro hmem
          obtain ⟨e', he', hsame⟩ := List.mem_map.mp hmem
          exact (hkeys e' he').2 hsame
        · intro e' he'
          rcases List.mem_cons.mp he' with rfl | he'
          · exact he
          · exact (hkeys e' he').1
      rw [size_insert, if_neg he] at hlt
      omega

/-- Values for different keys are the values of their table. -/
theorem values_ofList_zip {keys : List κ} {values : List α} (hlength : keys.length = values.length)
    (hnodup : keys.Nodup) : (ofList (keys.zip values)).values = values := by
  have hkeys : (keys.zip values).map Prod.fst = keys := List.map_fst_zip (Nat.le_of_eq hlength)
  have hentries : (ofList (keys.zip values)).entries = [] ++ keys.zip values :=
    entries_insertAll (by rw [hkeys]; exact hnodup) (fun e _ => List.not_mem_nil)
  rw [Table.values, hentries, List.nil_append, List.map_snd_zip (Nat.le_of_eq hlength.symm)]

/-- A table has fewer values than it was given if a key came twice. -/
theorem length_values_ofList_zip_lt {keys : List κ} {values : List α}
    (hlength : keys.length = values.length) (hnodup : ¬keys.Nodup) :
    (ofList (keys.zip values)).values.length < values.length := by
  have hkeys : (keys.zip values).map Prod.fst = keys := List.map_fst_zip (Nat.le_of_eq hlength)
  have hlt : (ofList (keys.zip values)).size < 0 + (keys.zip values).length :=
    size_insertAll_lt fun h => hnodup (by rw [← hkeys]; exact h.1)
  rw [List.length_zip, hlength, Nat.min_self, Nat.zero_add] at hlt
  rw [Table.values, List.length_map]
  exact hlt

end Table

end DronePilot
