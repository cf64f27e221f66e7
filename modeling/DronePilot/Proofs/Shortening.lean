import DronePilot.Proofs.Stock

/-!
# Short names

A skill of either sort gets a short name when it is made.  The initials of the first two parts of its
name are tried first, and then its first character with each later one.  A name is refused if a part
of it is empty, so that there is no initial, or if all of these are taken; and a refused name leaves
no trace.

* `initials?_eq`, `fallbacks_eq` — what is tried, said of the name.
* `abbreviate_cases` — when a name is refused, and what it gets otherwise.
* `Stock.Reaches.keeps_short` — whatever happens, the short names given so far stay given.
* `short_names_fresh_and_kept` — what making a skill does to the table.
-/

namespace DronePilot

open DronePilot.Skill DronePilot.Text

namespace Skill

/-! ### What is tried -/

/-- The initials of the first two parts of a name, or of its only one. -/
def initials (name : List Char) : List Char :=
  ((pieces '_' name).take 2).filterMap List.head?

/-- The characters of a name behind the first one, low lines left out. -/
def laterLetters (name : List Char) : List Char :=
  (name.filter (· ≠ '_')).tail

/-- There is no short name for a name: a part of it is empty, or its initials are taken and so is its
first character with any later one. -/
def Unnameable (taken : Abbreviations) (name : List Char) : Prop :=
  [] ∈ pieces '_' name ∨
    (String.ofList (initials name) ∈ taken.keys ∧
      ∀ c ∈ laterLetters name, String.ofList (name.take 1 ++ [c]) ∈ taken.keys)

theorem mapM_head? (parts : List (List Char)) :
    parts.mapM List.head? =
      if [] ∈ parts then none else some (parts.filterMap List.head?) := by
  induction parts with
  | nil => rfl
  | cons part parts ih =>
      rw [List.mapM_cons, ih]
      cases part with
      | nil => simp
      | cons c part => by_cases hempty : [] ∈ parts <;> simp [hempty]

/-- Parts that are not empty have one initial each. -/
theorem take_filterMap_head? {parts : List (List Char)} (h : [] ∉ parts) (n : Nat) :
    (parts.filterMap List.head?).take n = (parts.take n).filterMap List.head? := by
  induction parts generalizing n with
  | nil => simp
  | cons part parts ih =>
      rw [List.mem_cons, not_or] at h
      cases part with
      | nil => exact absurd rfl h.1
      | cons c part =>
          cases n with
          | zero => rfl
          | succ n => simp [ih h.2]

theorem initials?_eq (name : List Char) :
    initials? name = if [] ∈ pieces '_' name then none else some (initials name) := by
  rw [initials?, mapM_head?]
  split
  · rfl
  · rename_i hparts
    rw [Option.map_some, take_filterMap_head? hparts, initials]

/-- A name whose parts are not empty begins with a character of its first part. -/
theorem exists_pieces_cons {name : List Char} (h : [] ∉ pieces '_' name) :
    ∃ first rest part parts, name = first :: rest ∧ first ≠ '_' ∧
      pieces '_' name = (first :: part) :: parts := by
  cases name with
  | nil => exact absurd List.mem_cons_self h
  | cons first rest =>
      have hfirst : first ≠ '_' := by
        rintro rfl
        exact h (by simp [pieces])
      cases hrest : pieces '_' rest with
      | nil => exact absurd hrest (pieces_ne_nil '_' rest)
      | cons part parts =>
          exact ⟨first, rest, part, parts, rfl, hfirst, by simp [pieces, hfirst, hrest]⟩

theorem fallbacks_eq {name : List Char} (h : [] ∉ pieces '_' name) :
    fallbacks name = (laterLetters name).map fun c => name.take 1 ++ [c] := by
  obtain ⟨first, rest, -, -, rfl, hfirst, -⟩ := exists_pieces_cons h
  simp [fallbacks, laterLetters, hfirst]

/-- Whatever is tried has one or two characters, and begins as the name does. -/
theorem shape_of_tried {name short : List Char} (h : [] ∉ pieces '_' name)
    (hshort : short ∈ initials name :: fallbacks name) :
    (short.length = 1 ∨ short.length = 2) ∧ short.head? = name.head? := by
  rw [fallbacks_eq h] at hshort
  obtain ⟨first, rest, part, parts, rfl, -, hpieces⟩ := exists_pieces_cons h
  rcases List.mem_cons.mp hshort with rfl | hshort
  · have hinitials : initials (first :: rest) = first :: (parts.take 1).filterMap List.head? := by
      simp [initials, hpieces]
    have hlength : ((parts.take 1).filterMap List.head?).length ≤ 1 :=
      Nat.le_trans (List.length_filterMap_le _ _) (List.length_take_le 1 parts)
    rw [hinitials, List.length_cons]
    exact ⟨by omega, rfl⟩
  · obtain ⟨c, -, rfl⟩ := List.mem_map.mp hshort
    exact ⟨Or.inr rfl, rfl⟩

/-- All that is tried is taken exactly if the initials are and the first character with any later
one. -/
theorem forall_tried_iff {taken : Abbreviations} {name : List Char} (h : [] ∉ pieces '_' name) :
    (∀ s ∈ initials name :: fallbacks name, String.ofList s ∈ taken.keys) ↔
      Unnameable taken name := by
  rw [fallbacks_eq h, List.forall_mem_cons, List.forall_mem_map, Unnameable, or_iff_right h]

/-! ### Giving a short name -/

/-- **A name is refused exactly if it is unnameable**, and otherwise gets a short name that is
free. -/
theorem abbreviate_cases (taken : Abbreviations) (name : String) :
    (Unnameable taken name.toList ∧ abbreviate taken name = .error .noSuchPosition) ∨
      (¬Unnameable taken name.toList ∧
        ∃ short ∉ taken.keys, abbreviate taken name = .ok short ∧
          (short.length = 1 ∨ short.length = 2) ∧ short.toList.head? = name.toList.head?) := by
  rw [abbreviate, initials?_eq]
  by_cases hempty : [] ∈ pieces '_' name.toList
  · rw [if_pos hempty]
    exact Or.inl ⟨Or.inl hempty, rfl⟩
  · rw [if_neg hempty, ← forall_tried_iff hempty]
    dsimp only
    cases hfind : (initials name.toList :: fallbacks name.toList).find? fun s =>
        !taken.contains (String.ofList s) with
    | none =>
        refine Or.inl ⟨fun s hs => ?_, rfl⟩
        simpa [Table.contains] using List.find?_eq_none.mp hfind s hs
    | some s =>
        have hs := List.mem_of_find?_eq_some hfind
        have hfree : String.ofList s ∉ taken.keys := by
          simpa [Table.contains] using List.find?_some hfind
        obtain ⟨hlength, hhead⟩ := shape_of_tried hempty hs
        refine Or.inr ⟨fun htaken => hfree (htaken s hs), String.ofList s, hfree, rfl, ?_, ?_⟩
        · rwa [String.length_ofList]
        · rwa [String.toList_ofList]

end Skill

/-! ### Making skills -/

theorem Collection.abbreviate_of_ok {c : Collection} {name short : String}
    (h : Skill.abbreviate c.short name = .ok short) :
    c.abbreviate name = .ok (short, { c with short := c.short.insert short name }) := by
  rw [Collection.abbreviate, h]
  rfl

/-- Only the short name of a declared skill is entered, whether a set takes the skill or not. -/
theorem Collection.short_declare {c : Collection} {name short : String}
    (h : Skill.abbreviate c.short name = .ok short) (i : Nat) (make : String → Skill) :
    (c.declare i name make).2.short = c.short.insert short name := by
  unfold Collection.declare
  rw [Collection.abbreviate_of_ok h]
  dsimp only
  cases hadd : Collection.add _ i (make short) with
  | error f => rfl
  | ok c' =>
      obtain ⟨set, t, -, -, -, rfl⟩ := Collection.add_ok hadd
      rfl

/-- **One step** keeps the short names that were given. -/
theorem Stock.Step.keeps_short {st st' : Stock} (h : Stock.Step st st') :
    st.collection.short.entries <+: st'.collection.short.entries := by
  rcases h.short with ⟨hsame, -⟩ | ⟨b, short, -, hfree, hinsert, -⟩
  · exact ⟨[], by rw [hsame, List.append_nil]⟩
  · rw [hinsert, Table.entries_insert_of_none hfree]
    exact List.prefix_append _ _

/-- **Short names are never given back**, whatever is made, put into sets and taken out. -/
theorem Stock.Reaches.keeps_short {st st' : Stock} (h : Stock.Reaches st st') :
    st.collection.short.entries <+: st'.collection.short.entries := by
  induction h with
  | refl => exact List.prefix_refl _
  | tail _ hstep ih => exact ih.trans hstep.keeps_short

/-- **Short names are fresh and permanent.**  Take any table of short names and any skill, basic or
composed, under any name.  Making the skill either enters exactly one short name, which was free, has
one or two characters, begins with the first character of the name and stands for the name, behind
the entries that were there; or it is refused, and the table is as before.  It is refused exactly if
a part of the name between low lines is empty, or the initials of its first two parts are taken and
so is its first character with any later one.  No entry is changed by anything that happens later. -/
theorem short_names_fresh_and_kept (c : Collection) (b : Blueprint) (i : Nat) :
    ((∃ short ∉ c.short.keys,
        c.abbreviate b.name =
          .ok (short, { c with short := c.short.insert short b.name }) ∧
        (short.length = 1 ∨ short.length = 2) ∧
        short.toList.head? = b.name.toList.head? ∧
        (c.short.insert short b.name).entries = c.short.entries ++ [(short, b.name)] ∧
        (c.declare i b.name b.build).2.short = c.short.insert short b.name) ∨
      (c.abbreviate b.name = .error .noSuchPosition ∧
        c.declare i b.name b.build = (.error .noSuchPosition, c))) ∧
    (c.abbreviate b.name = .error .noSuchPosition ↔ Unnameable c.short b.name.toList) ∧
    ∀ made st, Stock.Reaches ⟨c, made⟩ st → c.short.entries <+: st.collection.short.entries := by
  have hkept : ∀ made st, Stock.Reaches ⟨c, made⟩ st →
      c.short.entries <+: st.collection.short.entries :=
    fun _ _ hreaches => hreaches.keeps_short
  rcases abbreviate_cases c.short b.name with ⟨hnone, hrefused⟩ | ⟨hsome, short, hfree, hok, hshape⟩
  · have hmake : c.abbreviate b.name = .error .noSuchPosition := by
      rw [Collection.abbreviate, hrefused]
      rfl
    refine ⟨Or.inr ⟨hmake, ?_⟩, iff_of_true hmake hnone, hkept⟩
    rw [Collection.declare, hmake]
  · have hmake := Collection.abbreviate_of_ok hok
    refine ⟨Or.inl ⟨short, hfree, hmake, hshape.1, hshape.2, ?_, ?_⟩, ?_, hkept⟩
    · exact Table.entries_insert_of_none (Table.find?_eq_none_iff.mpr hfree) b.name
    · exact Collection.short_declare hok i b.build
    · rw [hmake]
      exact iff_of_false (fun h => by cases h) hsome

/-- A skill whose initials are taken gets its first character and the next one that is free.  Names for
which everything is taken, or with an empty part, are refused. -/
theorem short_names_fresh_and_kept_taken :
    Stock.Reaches ⟨.robot [] [("mf", "move_forward")], []⟩
        ⟨.robot [] [("mf", "move_forward"), ("mo", "move_fast")], [moveFast]⟩ ∧
      [("mf", "move_forward")] <+: [("mf", "move_forward"), ("mo", "move_fast")] ∧
      (Collection.robot [] [("f", "fly")]).abbreviate "f" = .error .noSuchPosition ∧
      (Collection.robot [] []).abbreviate "go__on" = .error .noSuchPosition := by
  have hmade : Stock.Reaches ⟨.robot [] [("mf", "move_forward")], []⟩
      ⟨.robot [] [("mf", "move_forward"), ("mo", "move_fast")], [moveFast]⟩ :=
    .single (.make (b := .plain "move_fast") rfl)
  obtain ⟨-, -, hkept⟩ :=
    short_names_fresh_and_kept (.robot [] [("mf", "move_forward")]) (.plain "move_fast") 0
  obtain ⟨-, hfull, -⟩ := short_names_fresh_and_kept (.robot [] [("f", "fly")]) (.plain "f") 0
  obtain ⟨-, hparts, -⟩ := short_names_fresh_and_kept (.robot [] []) (.plain "go__on") 0
  have hlater : laterLetters "f".toList = [] := rfl
  refine ⟨hmade, hkept _ _ hmade, hfull.mpr (Or.inr ⟨by decide, ?_⟩),
    hparts.mpr (Or.inl (by decide))⟩
  intro c hc
  cases hlater ▸ hc

end DronePilot
