import DronePilot.Skill.Definition
import Mathlib.Data.String.Basic

/-!
# The parameters that a definition asks for

The parameters of a composed skill are found by going through the calls of its definition.  A
placeholder that stands as an argument takes over the parameter of that place, the first time that
it is met.  What is found is listed in the order of the texts of the placeholders.

* `placeholderUses` — the places at which placeholders stand as arguments, in order.
* `inferParameters_uses` — the parameters are those of the first uses, by the texts of the
  placeholders.
* `eq_numberedNames_iff` — the order of the texts is that of the numbers up to `$9`; the text `$10`
  comes before `$2`.
-/

namespace DronePilot.Skill

open DronePilot.Text

/-- The placeholders among arguments, the first argument being at the given position, each with the
parameter at its position. -/
def argumentUses (parameters : List Parameter) :
    Nat → List (List Char) → List (String × Option Parameter)
  | _, [] => []
  | i, argument :: rest =>
    if isPlaceholder argument then
      (String.ofList argument, parameters[i]?) :: argumentUses parameters (i + 1) rest
    else argumentUses parameters (i + 1) rest

/-- The placeholders among the arguments of calls, each with the parameter that it stands for. -/
def placeholderUses (find? : String → Option Skill) :
    List (String × List (List Char)) → List (String × Option Parameter)
  | [] => []
  | (name, arguments) :: rest =>
    argumentUses ((calleeParameters find? name).toOption.getD []) 0 arguments ++
      placeholderUses find? rest

/-- The parameter at which a placeholder is first used. -/
def firstUse? (uses : List (String × Option Parameter)) (key : String) : Option Parameter :=
  (uses.lookup key).join

/-- A table has noted uses: what it held before is kept, and whatever else is used stands for the
parameter of its first use. -/
structure Notes (noted : Table String Parameter) (uses : List (String × Option Parameter))
    (noted' : Table String Parameter) : Prop where
  find? : ∀ key, noted'.find? key = (noted.find? key).or (firstUse? uses key)
  all : ∀ use ∈ uses, noted'.find? use.1 ≠ none

/-- The first use in a sequence is the first one in its front part that has any. -/
theorem firstUse?_append (uses uses' : List (String × Option Parameter)) {key : String}
    (h : uses.lookup key ≠ some none) :
    firstUse? (uses ++ uses') key = (firstUse? uses key).or (firstUse? uses' key) := by
  unfold firstUse?
  rw [List.lookup_append]
  cases hfound : uses.lookup key with
  | none => rfl
  | some p =>
      cases p with
      | none => exact absurd hfound h
      | some p => rfl

/-- What is looked up is there. -/
theorem mem_of_lookup {uses : List (String × Option Parameter)} {key : String}
    {p : Option Parameter} (h : uses.lookup key = some p) : (key, p) ∈ uses := by
  induction uses with
  | nil => cases h
  | cons use rest ih =>
      obtain ⟨name, q⟩ := use
      rw [List.lookup_cons] at h
      split at h
      · rename_i hname
        rw [eq_of_beq hname, ← Option.some.inj h]
        exact List.mem_cons_self
      · exact List.mem_cons_of_mem _ (ih h)

/-- Uses are noted in order. -/
theorem Notes.append {noted noted₁ noted₂ : Table String Parameter}
    {uses uses' : List (String × Option Parameter)} (h : Notes noted uses noted₁)
    (h' : Notes noted₁ uses' noted₂) : Notes noted (uses ++ uses') noted₂ := by
  refine ⟨fun key => ?_, fun use huse => ?_⟩
  · rw [h'.find?, h.find?]
    cases hold : noted.find? key with
    | some p => rfl
    | none =>
        have hknown : uses.lookup key ≠ some none := by
          intro hnone
          have hnoted := h.all _ (mem_of_lookup hnone)
          rw [h.find?, hold, firstUse?, hnone] at hnoted
          exact hnoted rfl
        rw [firstUse?_append uses uses' hknown, Option.none_or, Option.none_or]
  · rcases List.mem_append.mp huse with huse | huse
    · have hkept := h.all use huse
      rw [h'.find?]
      cases hfound : noted₁.find? use.1 with
      | none => exact absurd hfound hkept
      | some p => simp
    · exact h'.all use huse

theorem Notes.nil (noted : Table String Parameter) : Notes noted [] noted := by
  refine ⟨fun key => ?_, fun use huse => absurd huse List.not_mem_nil⟩
  cases noted.find? key <;> rfl

/-- The only use is the first one. -/
theorem firstUse?_singleton (name key : String) (p : Option Parameter) :
    firstUse? [(name, p)] key = if key = name then p else none := by
  by_cases hkey : key = name
  · subst hkey
    simp [firstUse?]
  · have hbeq : (key == name) = false := beq_false_of_ne hkey
    simp [firstUse?, List.lookup_cons, hbeq, hkey]

/-- A placeholder that was noted before keeps its first use. -/
theorem Notes.old {noted : Table String Parameter} {name : String} (h : noted.find? name ≠ none)
    (p : Option Parameter) : Notes noted [(name, p)] noted := by
  refine ⟨fun key => ?_, fun use huse => ?_⟩
  · rw [firstUse?_singleton]
    split
    · rename_i hkey
      subst hkey
      obtain ⟨q, hq⟩ := Option.ne_none_iff_exists'.mp h
      rw [hq, Option.some_or]
    · rw [Option.or_none]
  · obtain rfl := List.mem_singleton.mp huse
    exact h

/-- A new one is noted with its use. -/
theorem Notes.new {noted : Table String Parameter} {name : String} (h : noted.find? name = none)
    (p : Parameter) : Notes noted [(name, some p)] (noted.insert name p) := by
  refine ⟨fun key => ?_, fun use huse => ?_⟩
  · rw [firstUse?_singleton]
    split
    · rename_i hkey
      subst hkey
      rw [Table.find?_insert_self, h, Option.none_or]
    · rename_i hkey
      rw [Table.find?_insert_of_ne _ _ hkey, Option.or_none]
  · obtain rfl := List.mem_singleton.mp huse
    rw [Table.find?_insert_self]
    exact Option.some_ne_none p

/-- Noting the placeholders of a call notes their uses. -/
theorem notePlaceholders_notes {parameters : List Parameter} {noted noted' : Table String Parameter}
    {i : Nat} {arguments : List (List Char)}
    (h : notePlaceholders parameters noted i arguments = .ok noted') :
    Notes noted (argumentUses parameters i arguments) noted' := by
  induction arguments generalizing noted i with
  | nil =>
      cases h
      exact Notes.nil _
  | cons argument rest ih =>
      unfold notePlaceholders at h
      unfold argumentUses
      cases hplaceholder : isPlaceholder argument with
      | false =>
          simp only [hplaceholder, Bool.false_and, Bool.false_eq_true, if_false] at h ⊢
          exact ih h
      | true =>
          simp only [hplaceholder, Bool.true_and, if_true] at h ⊢
          rw [← List.singleton_append]
          cases hcontains : noted.contains (String.ofList argument) with
          | false =>
              simp only [hcontains, Bool.not_false, if_true] at h
              cases hp : parameters[i]? with
              | none =>
                  simp only [hp] at h
                  cases h
              | some p =>
                  simp only [hp] at h
                  exact (Notes.new (Table.contains_eq_false_iff.mp hcontains) p).append (ih h)
          | true =>
              simp only [hcontains, Bool.not_true, Bool.false_eq_true, if_false] at h
              have hold : noted.find? (String.ofList argument) ≠ none := by
                rw [Ne, ← Table.contains_eq_false_iff, hcontains]
                simp
              exact (Notes.old hold _).append (ih h)

/-- The calls of a definition note the uses of placeholders in them. -/
theorem noteCalls_notes {find? : String → Option Skill} {noted noted' : Table String Parameter}
    {calls : List (String × List (List Char))} (h : noteCalls find? noted calls = .ok noted') :
    Notes noted (placeholderUses find? calls) noted' := by
  induction calls generalizing noted with
  | nil =>
      cases h
      exact Notes.nil _
  | cons call rest ih =>
      obtain ⟨name, arguments⟩ := call
      unfold noteCalls at h
      unfold placeholderUses
      cases hcallee : calleeParameters find? name with
      | error f =>
          rw [hcallee] at h
          cases h
      | ok parameters =>
          cases hnote : notePlaceholders parameters noted 0 arguments with
          | error f =>
              simp only [hcallee, bind, Except.bind, hnote] at h
              cases h
          | ok noted₁ =>
              simp only [hcallee, bind, Except.bind, hnote] at h
              exact (notePlaceholders_notes hnote).append (ih h)

/-! ### The order of the parameters -/

/-- Sorted by name, the placeholders noted are in ascending order. -/
theorem pairwise_mergeSort_keys (t : Table String Parameter) :
    ((t.entries.mergeSort fun a b => decide (a.1 ≤ b.1)).map Prod.fst).Pairwise (· < ·) := by
  have hsorted : ((t.entries.mergeSort fun a b => decide (a.1 ≤ b.1)).map Prod.fst).Pairwise
      (· ≤ ·) := by
    rw [List.pairwise_map]
    refine (List.pairwise_mergeSort (fun a b c hab hbc => ?_) (fun a b => ?_) t.entries).imp ?_
    · simp only [decide_eq_true_eq] at hab hbc ⊢
      exact le_trans hab hbc
    · simpa using le_total a.1 b.1
    · intro a b hab
      simpa using hab
  have hnodup : ((t.entries.mergeSort fun a b => decide (a.1 ≤ b.1)).map Prod.fst).Nodup :=
    ((List.mergeSort_perm _ _).map _).nodup_iff.mpr t.nodup
  exact hsorted.imp₂ (fun _ _ hle hne => lt_of_le_of_ne hle hne) hnodup

/-- **The parameters of a composed skill** are those of the first uses of its placeholders, in the
order of their texts. -/
theorem inferParameters_uses {find? : String → Option Skill} {definition : String}
    {parameters : List Parameter} (h : inferParameters find? definition = .ok parameters) :
    let uses := placeholderUses find? (callsIn definition.toList)
    ∃ names : List String, names.Pairwise (· < ·) ∧
      (∀ name, name ∈ names ↔ name ∈ uses.map Prod.fst) ∧
      parameters.map some = names.map (firstUse? uses) := by
  intro uses
  unfold inferParameters at h
  cases hnoted : noteCalls find? Table.empty (callsIn definition.toList) with
  | error f =>
      rw [hnoted] at h
      cases h
  | ok noted =>
      rw [hnoted] at h
      cases h
      have hnotes := noteCalls_notes hnoted
      have hfirst : ∀ name, noted.find? name = firstUse? uses name := by
        intro name
        rw [hnotes.find?, Table.find?_empty, Option.none_or]
      have hsame := List.mergeSort_perm noted.entries fun a b => decide (a.1 ≤ b.1)
      refine ⟨_, pairwise_mergeSort_keys noted, fun name => ?_, ?_⟩
      · rw [(hsame.map Prod.fst).mem_iff]
        constructor
        · intro hname
          have hused : firstUse? uses name ≠ none := by
            rw [← hfirst, Ne, Table.find?_eq_none_iff]
            exact not_not_intro hname
          cases hlookup : uses.lookup name with
          | none => exact absurd (by rw [firstUse?, hlookup]; rfl) hused
          | some p => exact List.mem_map_of_mem (mem_of_lookup hlookup)
        · intro hname
          obtain ⟨use, huse, rfl⟩ := List.mem_map.mp hname
          by_contra habsent
          exact hnotes.all use huse (Table.find?_eq_none_iff.mpr habsent)
      · rw [List.map_map, List.map_map]
        refine List.map_congr_left fun entry hentry => ?_
        have hfound : noted.find? entry.1 = some entry.2 :=
          Table.find?_eq_some_iff.mpr (hsame.mem_iff.mp hentry)
        exact hfound.symm.trans (hfirst entry.1)

/-- The names of the first placeholders: `$1`, `$2` and so on. -/
def numberedNames (n : Nat) : List String :=
  (List.range n).map fun i => String.ofList (placeholder (i + 1))

/-- Up to nine, the numbered placeholders are in ascending order. -/
theorem numberedNames_sorted {n : Nat} (h : n ≤ 9) : (numberedNames n).Pairwise (· < ·) := by
  revert n
  decide

/-- The order of the texts is the order of the numbers as long as these have one digit. -/
theorem numberedNames_sorted_iff (n : Nat) : (numberedNames n).Pairwise (· < ·) ↔ n ≤ 9 := by
  refine ⟨fun h => ?_, numberedNames_sorted⟩
  by_contra hmany
  rw [numberedNames, List.pairwise_map, List.pairwise_iff_getElem] at h
  have htwo := h 1 9 (by simp; omega) (by simp; omega) (by omega)
  simp only [List.getElem_range] at htwo
  revert htwo
  decide

/-- There is only one way to list names in their order. -/
theorem eq_of_sorted {names names' : List String} (h : names.Pairwise (· < ·))
    (h' : names'.Pairwise (· < ·)) (hmem : ∀ name, name ∈ names ↔ name ∈ names') :
    names = names' := by
  have hperm : names.Perm names' :=
    (List.perm_ext_iff_of_nodup (h.imp fun h => ne_of_lt h) (h'.imp fun h => ne_of_lt h)).mpr hmem
  exact hperm.eq_of_pairwise (fun _ _ _ _ hab hba => absurd hab (lt_asymm hba)) h h'

/-- Sorted names are the numbered ones exactly if they are at most nine and the same. -/
theorem eq_numberedNames_iff {names : List String} (h : names.Pairwise (· < ·)) (n : Nat) :
    names = numberedNames n ↔ n ≤ 9 ∧ ∀ name, name ∈ names ↔ name ∈ numberedNames n := by
  constructor
  · rintro rfl
    exact ⟨(numberedNames_sorted_iff n).mp h, fun _ => Iff.rfl⟩
  · rintro ⟨hn, hmem⟩
    exact eq_of_sorted h (numberedNames_sorted hn) hmem

end DronePilot.Skill
