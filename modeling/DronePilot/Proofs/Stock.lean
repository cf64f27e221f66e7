import DronePilot.Skill.Workshop
import Mathlib.Logic.Relation

/-!
# The stock of skills

Skills are made, put into sets and taken out again, in any order and over any number of sets, and
all sets share one table of short names.  A skill gets its short name when it is made, whether it is
put into a set or not, and the short name stays taken for ever.

* `Collection.add_ok`, `Collection.add_error` — what adding a skill to a set comes to.
* `Stock.Step` — what can happen to the stock, and `Stock.Step.alters` what that does to one set.
* `Stock.Reaches.sound` — what holds at all times.
* `skill_found_by_both_names` — a skill in a set is found there by its name and by its short name,
  as long as no name is as short as a short name; and what fails changes no set.
-/

namespace DronePilot

open DronePilot.Skill

/-! ## Short names -/

namespace Skill

/-- The initials of a name are at most two characters. -/
theorem length_of_initials? {name short : List Char} (h : initials? name = some short) :
    short.length ≤ 2 := by
  obtain ⟨parts, -, rfl⟩ := Option.map_eq_some_iff.mp h
  exact List.length_take_le 2 parts

/-- Every other short name that is tried has two. -/
theorem length_of_mem_fallbacks {name short : List Char} (h : short ∈ fallbacks name) :
    short.length = 2 := by
  unfold fallbacks at h
  split at h
  · cases h
  · obtain ⟨c, -, rfl⟩ := List.mem_map.mp h
    rfl

/-- A short name has two characters at most, and it was not taken. -/
theorem abbreviate_ok {taken : Abbreviations} {name short : String}
    (h : abbreviate taken name = .ok short) : short.length ≤ 2 ∧ taken.find? short = none := by
  unfold abbreviate at h
  split at h
  · cases h
  · rename_i initials hinitials
    split at h
    · rename_i s hfind
      cases h
      constructor
      · rw [String.length_ofList]
        rcases List.mem_cons.mp (List.mem_of_find?_eq_some hfind) with rfl | hs
        · exact length_of_initials? hinitials
        · exact Nat.le_of_eq (length_of_mem_fallbacks hs)
      · have hfree := List.find?_some hfind
        rw [Table.find?_eq_none_iff]
        simpa [Table.contains] using hfree
    · cases h

/-! ## The parameters of a definition -/

variable {find? : String → Option Skill}

/-- A placeholder cannot be noted if it stands beyond the parameters of the call. -/
theorem notePlaceholders_error {parameters : List Parameter} {noted : Table String Parameter}
    {i : Nat} {arguments : List (List Char)} {f : Fault}
    (h : notePlaceholders parameters noted i arguments = .error f) :
    f = .noSuchPosition ∧ ∃ k argument, arguments[k]? = some argument ∧
      isPlaceholder argument = true ∧ parameters.length ≤ i + k := by
  induction arguments generalizing noted i with
  | nil => cases h
  | cons argument rest ih =>
      unfold notePlaceholders at h
      have hlater : (f = .noSuchPosition ∧ ∃ k a, rest[k]? = some a ∧ isPlaceholder a = true ∧
          parameters.length ≤ i + 1 + k) → f = .noSuchPosition ∧ ∃ k a,
            (argument :: rest)[k]? = some a ∧ isPlaceholder a = true ∧
              parameters.length ≤ i + k := by
        rintro ⟨hf, k, a, ha, hplaceholder, hk⟩
        exact ⟨hf, k + 1, a, ha, hplaceholder, by omega⟩
      split at h
      · rename_i hnew
        split at h
        · exact hlater (ih h)
        · rename_i hnone
          cases h
          rw [Bool.and_eq_true] at hnew
          exact ⟨rfl, 0, argument, rfl, hnew.1, List.getElem?_eq_none_iff.mp hnone⟩
      · exact hlater (ih h)

/-- The parameters of a callee are missing only if its name is unknown. -/
theorem calleeParameters_error {name : String} {f : Fault}
    (h : calleeParameters find? name = .error f) :
    f = .unknownCallee name ∧ conversion? name = none ∧ find? name = none := by
  unfold calleeParameters at h
  split at h
  · cases h
  · rename_i hconversion
    split at h
    · cases h
    · rename_i hnone
      cases h
      exact ⟨rfl, hconversion, hnone⟩

/-- The calls of a definition cannot be noted if one of them calls something unknown, or has a
placeholder beyond the parameters of what it calls. -/
theorem noteCalls_error {noted : Table String Parameter}
    {calls : List (String × List (List Char))} {f : Fault}
    (h : noteCalls find? noted calls = .error f) :
    ∃ name arguments, (name, arguments) ∈ calls ∧
      ((f = .unknownCallee name ∧ conversion? name = none ∧ find? name = none) ∨
        (f = .noSuchPosition ∧ ∃ parameters k argument,
          calleeParameters find? name = .ok parameters ∧ arguments[k]? = some argument ∧
            isPlaceholder argument = true ∧ parameters.length ≤ k)) := by
  induction calls generalizing noted with
  | nil => cases h
  | cons call rest ih =>
      obtain ⟨name, arguments⟩ := call
      unfold noteCalls at h
      cases hcallee : calleeParameters find? name with
      | error f' =>
          rw [hcallee] at h
          cases h
          exact ⟨name, arguments, List.mem_cons_self, Or.inl (calleeParameters_error hcallee)⟩
      | ok parameters =>
          rw [hcallee] at h
          cases hnote : notePlaceholders parameters noted 0 arguments with
          | error f' =>
              simp only [bind, Except.bind, hnote] at h
              cases h
              obtain ⟨hf, k, argument, hargument, hplaceholder, hk⟩ := notePlaceholders_error hnote
              exact ⟨name, arguments, List.mem_cons_self,
                Or.inr ⟨hf, parameters, k, argument, hcallee, hargument, hplaceholder, by omega⟩⟩
          | ok noted' =>
              simp only [bind, Except.bind, hnote] at h
              obtain ⟨name', arguments', hmem, hreason⟩ := ih h
              exact ⟨name', arguments', List.mem_cons_of_mem _ hmem, hreason⟩

/-- Parameters cannot be inferred only because of a call: its name is unknown, or it has a
placeholder at a position that the callee does not have. -/
theorem inferParameters_error {definition : String} {f : Fault}
    (h : inferParameters find? definition = .error f) :
    ∃ name arguments, (name, arguments) ∈ callsIn definition.toList ∧
      ((f = .unknownCallee name ∧ conversion? name = none ∧ find? name = none) ∨
        (f = .noSuchPosition ∧ ∃ parameters k argument,
          calleeParameters find? name = .ok parameters ∧ arguments[k]? = some argument ∧
            isPlaceholder argument = true ∧ parameters.length ≤ k)) := by
  unfold inferParameters at h
  cases hnoted : noteCalls find? Table.empty (callsIn definition.toList) with
  | error f' =>
      rw [hnoted] at h
      cases h
      exact noteCalls_error hnoted
  | ok noted =>
      rw [hnoted] at h
      cases h

end Skill

/-! ## Adding and removing -/

namespace Collection

variable {c c' : Collection} {i : Nat} {set : SkillSet} {s t : Skill} {f : Fault}

/-- What a name stands for in a set above another one: the other set comes first. -/
def meaning (c : Collection) (lower set : SkillSet) (name : String) : Option Skill :=
  (lower.skills.lookup c.short name).or (set.skills.lookup c.short name)

/-- The form in which a set takes a skill.  A composed skill that is placed above another set gets
the parameters that follow from its definition; all others stay as they are. -/
inductive Takes (c : Collection) (set : SkillSet) : Skill → Skill → Prop
  | unchanged {s : Skill} (hbelow : set.level = .low ∨ ∃ b, s = .basic b) : Takes c set s s
  | placed {s : ComposedSkill} {lower : SkillSet} {parameters : List Parameter}
      (hlevel : set.level = .high) (hlower : (set.lower.bind fun j => c.sets[j]?) = some lower)
      (hparameters : inferParameters (c.meaning lower set) s.definition = .ok parameters) :
      Takes c set (.composed s) (.composed { s with parameters := parameters, placed := true })

/-- Why a set does not take a skill. -/
inductive Refuses (c : Collection) (set : SkillSet) : Skill → Fault → Prop
  | duplicate {s : Skill} (hold : set.skills.find? s.name ≠ none) :
      Refuses c set s (.duplicateSkill s.name)
  | noLowerSet {s : ComposedSkill} (hlevel : set.level = .high)
      (hlower : (set.lower.bind fun j => c.sets[j]?) = none) :
      Refuses c set (.composed s) .noLowerSet
  | unknownCallee {s : ComposedSkill} {lower : SkillSet} {name : String}
      {arguments : List (List Char)} (hlevel : set.level = .high)
      (hlower : (set.lower.bind fun j => c.sets[j]?) = some lower)
      (hcall : (name, arguments) ∈ callsIn s.definition.toList) (hname : conversion? name = none)
      (hunknown : c.meaning lower set name = none) :
      Refuses c set (.composed s) (.unknownCallee name)
  | noParameter {s : ComposedSkill} {lower : SkillSet} {name : String}
      {arguments : List (List Char)} {parameters : List Parameter} {k : Nat} {argument : List Char}
      (hlevel : set.level = .high) (hlower : (set.lower.bind fun j => c.sets[j]?) = some lower)
      (hcall : (name, arguments) ∈ callsIn s.definition.toList)
      (hcallee : calleeParameters (c.meaning lower set) name = .ok parameters)
      (hargument : arguments[k]? = some argument) (hplaceholder : isPlaceholder argument = true)
      (hbeyond : parameters.length ≤ k) : Refuses c set (.composed s) .noSuchPosition

/-- A skill is taken into a set under its own name. -/
theorem Takes.name (h : c.Takes set s t) : t.name = s.name := by
  cases h <;> rfl

/-- It keeps its short name. -/
theorem Takes.abbreviation (h : c.Takes set s t) : t.abbreviation = s.abbreviation := by
  cases h <;> rfl

/-- A composed skill that is new to a set of the high level is added with its parameters. -/
theorem add_composed {s : ComposedSkill} (hset : c.sets[i]? = some set) (hlevel : set.level = .high)
    (hnew : set.skills.find? s.name = none) {lower : SkillSet}
    (hlower : (set.lower.bind fun j => c.sets[j]?) = some lower) :
    c.add i (.composed s) =
      (inferParameters (c.meaning lower set) s.definition).map fun parameters =>
        c.update i (set.skills.insert s.name
          (.composed { s with parameters := parameters, placed := true })) := by
  have hcontains : set.skills.contains s.name = false := Table.contains_eq_false_iff.mpr hnew
  have hadd : c.add i (.composed s) =
      c.update i <$> (inferParameters (c.meaning lower set) s.definition >>= fun parameters =>
        set.skills.add (.composed { s with parameters := parameters, placed := true })) := by
    simp only [add, hset, hlevel, hcontains, Bool.false_eq_true, if_false, hlower,
      Skills.addComposed]
    rfl
  rw [hadd]
  cases inferParameters (c.meaning lower set) s.definition with
  | error f => rfl
  | ok parameters =>
      simp [bind, Except.bind, Functor.map, Except.map, Skills.add, Skill.name, hcontains]

/-- A composed skill that is new to a set of the high level is not added without a set below. -/
theorem add_composed_alone {s : ComposedSkill} (hset : c.sets[i]? = some set)
    (hlevel : set.level = .high) (hnew : set.skills.find? s.name = none)
    (hlower : (set.lower.bind fun j => c.sets[j]?) = none) :
    c.add i (.composed s) = .error .noLowerSet := by
  have hcontains : set.skills.contains s.name = false := Table.contains_eq_false_iff.mpr hnew
  simp only [add, hset, hlevel, hcontains, Bool.false_eq_true, if_false, hlower]

/-- A name that is in the set already is not added. -/
theorem add_duplicate (hset : c.sets[i]? = some set) (hold : set.skills.find? s.name ≠ none) :
    c.add i s = .error (.duplicateSkill s.name) := by
  have hcontains : set.skills.contains s.name = true :=
    Bool.of_not_eq_false (mt Table.contains_eq_false_iff.mp hold)
  cases s with
  | basic b =>
      simp only [Skill.name] at hcontains
      cases hlevel : set.level <;>
        simp [add, hset, hlevel, Skills.add, Skill.name, hcontains, Functor.map, Except.map]
  | composed s =>
      simp only [Skill.name] at hcontains
      cases hlevel : set.level <;>
        simp [add, hset, hlevel, Skills.add, Skill.name, hcontains, Functor.map, Except.map]

/-- A skill that is new to a set and is not placed is added as it is. -/
theorem add_unchanged (hset : c.sets[i]? = some set)
    (hbelow : set.level = .low ∨ ∃ b, s = .basic b) (hnew : set.skills.find? s.name = none) :
    c.add i s = .ok (c.update i (set.skills.insert s.name s)) := by
  have hcontains : set.skills.contains s.name = false := Table.contains_eq_false_iff.mpr hnew
  have hadd : c.add i s = c.update i <$> set.skills.add s := by
    simp only [add, hset]
    split
    · rename_i hlevel
      rcases hbelow with h | ⟨b, h⟩
      · rw [h] at hlevel
        cases hlevel
      · cases h
    · rfl
  rw [hadd]
  simp [Skills.add, hcontains, Functor.map, Except.map]

/-- **What adding a skill comes to**: a set takes it, or refuses it for one of the reasons. -/
theorem add_cases (hset : c.sets[i]? = some set) (s : Skill) :
    (∃ f, c.Refuses set s f ∧ c.add i s = .error f) ∨
      ∃ t, set.skills.find? s.name = none ∧ c.Takes set s t ∧
        c.add i s = .ok (c.update i (set.skills.insert s.name t)) := by
  by_cases hnew : set.skills.find? s.name = none
  · by_cases hbelow : set.level = .low ∨ ∃ b, s = .basic b
    · exact Or.inr ⟨s, hnew, .unchanged hbelow, add_unchanged hset hbelow hnew⟩
    · obtain ⟨hlevel, s, rfl⟩ : set.level = .high ∧ ∃ s', s = .composed s' := by
        cases hl : set.level <;> cases s <;> simp_all
      cases hlower : set.lower.bind fun j => c.sets[j]? with
      | none =>
          exact Or.inl ⟨_, .noLowerSet hlevel hlower, add_composed_alone hset hlevel hnew hlower⟩
      | some lower =>
          rw [add_composed hset hlevel hnew hlower]
          cases hparameters : inferParameters (c.meaning lower set) s.definition with
          | ok parameters => exact Or.inr ⟨_, hnew, .placed hlevel hlower hparameters, rfl⟩
          | error f =>
              obtain ⟨name, arguments, hcall, hreason⟩ := inferParameters_error hparameters
              rcases hreason with ⟨rfl, hname, hunknown⟩ |
                ⟨rfl, parameters, k, argument, hcallee, hargument, hplaceholder, hk⟩
              · exact Or.inl ⟨_, .unknownCallee hlevel hlower hcall hname hunknown, rfl⟩
              · exact Or.inl ⟨_, .noParameter hlevel hlower hcall hcallee hargument hplaceholder hk,
                  rfl⟩
  · exact Or.inl ⟨_, .duplicate hnew, add_duplicate hset hnew⟩

/-- What was added is in the set, and nothing else has changed. -/
theorem add_ok (h : c.add i s = .ok c') :
    ∃ set t, c.sets[i]? = some set ∧ set.skills.find? s.name = none ∧ c.Takes set s t ∧
      c' = c.update i (set.skills.insert s.name t) := by
  cases hset : c.sets[i]? with
  | none =>
      unfold add at h
      rw [hset] at h
      cases h
  | some set =>
      rcases add_cases hset s with ⟨f, -, hadd⟩ | ⟨t, hnew, htakes, hadd⟩
      · rw [hadd] at h
        cases h
      · rw [hadd] at h
        cases h
        exact ⟨set, t, rfl, hnew, htakes, rfl⟩

/-- A skill is not added because there is no such set, or because the set refuses it. -/
theorem add_error (h : c.add i s = .error f) :
    (c.sets[i]? = none ∧ f = .noSuchKey) ∨ ∃ set, c.sets[i]? = some set ∧ c.Refuses set s f := by
  cases hset : c.sets[i]? with
  | none =>
      unfold add at h
      rw [hset] at h
      cases h
      exact Or.inl ⟨rfl, rfl⟩
  | some set =>
      rcases add_cases hset s with ⟨f', hrefuses, hadd⟩ | ⟨t, -, -, hadd⟩
      · rw [hadd] at h
        cases h
        exact Or.inr ⟨set, rfl, hrefuses⟩
      · rw [hadd] at h
        cases h

/-- Removing a skill that is there erases it, and removing another fails. -/
theorem remove_ok {name : String} (h : c.remove i name = .ok c') :
    ∃ set, c.sets[i]? = some set ∧ c' = c.update i (set.skills.erase name) := by
  unfold remove Skills.remove at h
  split at h
  · cases h
  · rename_i set hset
    split at h
    · cases h
      exact ⟨set, hset, rfl⟩
    · cases h

/-- A skill is not removed because there is no such set, or because it is not in the set. -/
theorem remove_error {name : String} (h : c.remove i name = .error f) :
    (c.sets[i]? = none ∧ f = .noSuchKey) ∨
      ∃ set, c.sets[i]? = some set ∧ set.skills.find? name = none ∧ f = .unknownSkill name := by
  unfold remove Skills.remove at h
  split at h
  · rename_i hset
    cases h
    exact Or.inl ⟨hset, rfl⟩
  · rename_i set hset
    split at h
    · cases h
    · rename_i hcontains
      cases h
      rw [Bool.not_eq_true, Table.contains_eq_false_iff] at hcontains
      exact Or.inr ⟨set, hset, hcontains, rfl⟩

/-- Giving a short name changes nothing but the table of short names. -/
theorem abbreviate_ok {name short : String} (h : c.abbreviate name = .ok (short, c')) :
    Skill.abbreviate c.short name = .ok short ∧
      c' = { c with short := c.short.insert short name } := by
  unfold abbreviate at h
  cases hshort : Skill.abbreviate c.short name with
  | error f =>
      rw [hshort] at h
      cases h
  | ok short' =>
      rw [hshort] at h
      cases h
      exact ⟨rfl, rfl⟩

/-- A new set is empty and stands behind the others. -/
theorem create_ok {name level : String} {lower : Option String}
    (h : c.create name level lower = .ok c') :
    ∃ level, c' = { c with
      sets := c.sets.push { level := level, lower := lower.bind c.named.find? }
      named := c.named.insert name c.sets.size } := by
  unfold create at h
  cases hlevel : Level.ofName level with
  | error f =>
      rw [hlevel] at h
      cases h
  | ok level =>
      rw [hlevel] at h
      cases h
      exact ⟨level, rfl⟩

/-- The skills of a set that is there. -/
theorem skills_of_getElem? (hset : c.sets[i]? = some set) : c.skills i = set.skills := by
  simp only [skills, hset]

/-- An update changes the skills of one set. -/
theorem skills_update (hset : c.sets[i]? = some set) (new : Skills) (j : Nat) :
    (c.update i new).skills j = if i = j then new else c.skills j := by
  by_cases hij : i = j
  · subst hij
    simp [skills, update, Array.getElem?_modify, hset]
  · simp [skills, update, Array.getElem?_modify, hij]

/-- A new set has no skills, and the others keep theirs. -/
theorem skills_create {name level : String} {lower : Option String}
    (h : c.create name level lower = .ok c') (j : Nat) : c'.skills j = c.skills j := by
  obtain ⟨level, rfl⟩ := create_ok h
  by_cases hj : j = c.sets.size
  · subst hj
    simp [skills]
  · simp [skills, Array.getElem?_push, hj]

end Collection

/-! ## What can happen -/

/-- What a skill is made from: everything but its short name. -/
inductive Blueprint where
  | basic (name description : String) (parameters : List Parameter) (binding : Binding)
  | composed (name description definition : String)

namespace Blueprint

/-- The name of the skill to be made. -/
def name : Blueprint → String
  | basic name _ _ _ => name
  | composed name _ _ => name

/-- The skill with a short name. -/
def build (b : Blueprint) (short : String) : Skill :=
  match b with
  | basic name description parameters binding =>
    .basic
      { name := name, abbreviation := short, description := description, parameters := parameters
        binding := binding }
  | composed name description definition =>
    .composed
      { name := name, abbreviation := short, definition := definition, description := description }

/-- A skill is made under its name. -/
@[simp]
theorem name_build (b : Blueprint) (short : String) : (b.build short).name = b.name := by
  cases b <;> rfl

/-- A skill is made with its short name. -/
@[simp]
theorem abbreviation_build (b : Blueprint) (short : String) :
    (b.build short).abbreviation = short := by
  cases b <;> rfl

end Blueprint

/-- The same skill, in the form in which it was made or with the parameters that a set gave it. -/
structure Skill.Same (s m : Skill) : Prop where
  name : s.name = m.name
  abbreviation : s.abbreviation = m.abbreviation

/-- The sets, and all skills that were made, whether they are in a set or not. -/
structure Stock where
  collection : Collection := {}
  made : List Skill := []

namespace Stock

variable {st st' : Stock} {i : Nat}

/-- One thing that happens: a set is made, a skill is made, a skill that was made is put into a set,
or a skill is taken out of one. -/
inductive Step : Stock → Stock → Prop
  | create {c c' : Collection} {made : List Skill} {name level : String} {lower : Option String}
      (h : c.create name level lower = .ok c') : Step ⟨c, made⟩ ⟨c', made⟩
  | make {c c' : Collection} {made : List Skill} {b : Blueprint} {short : String}
      (h : c.abbreviate b.name = .ok (short, c')) : Step ⟨c, made⟩ ⟨c', b.build short :: made⟩
  | put {c c' : Collection} {made : List Skill} {i : Nat} {s m : Skill} (hmade : m ∈ made)
      (hsame : s.Same m) (h : c.add i s = .ok c') : Step ⟨c, made⟩ ⟨c', made⟩
  | remove {c c' : Collection} {made : List Skill} {i : Nat} {name : String}
      (h : c.remove i name = .ok c') : Step ⟨c, made⟩ ⟨c', made⟩

/-- What has happened by then. -/
abbrev Reaches : Stock → Stock → Prop := Relation.ReflTransGen Step

/-- What can become of the skills of one set in one step. -/
inductive Alters (st : Stock) (i : Nat) : Skills → Prop
  | kept : Alters st i (st.collection.skills i)
  | added {set : SkillSet} {s m t : Skill} (hset : st.collection.sets[i]? = some set)
      (hmade : m ∈ st.made) (hsame : s.Same m) (hnew : set.skills.find? s.name = none)
      (htakes : st.collection.Takes set s t) : Alters st i (set.skills.insert s.name t)
  | erased (name : String) : Alters st i ((st.collection.skills i).erase name)

/-- **One step and one set**: the set keeps its skills, takes one more or loses one. -/
theorem Step.alters (h : Step st st') (i : Nat) : st.Alters i (st'.collection.skills i) := by
  cases h with
  | create h =>
      rw [Collection.skills_create h]
      exact .kept
  | make h =>
      obtain ⟨-, rfl⟩ := Collection.abbreviate_ok h
      exact .kept
  | @put c c' made j s m hmade hsame h =>
      obtain ⟨set, t, hset, hnew, htakes, rfl⟩ := Collection.add_ok h
      rw [Collection.skills_update hset]
      split
      · rename_i hij
        subst hij
        exact .added hset hmade hsame hnew htakes
      · exact .kept
  | @remove c c' made j name h =>
      obtain ⟨set, hset, rfl⟩ := Collection.remove_ok h
      rw [Collection.skills_update hset]
      split
      · rename_i hij
        subst hij
        rw [← Collection.skills_of_getElem? hset]
        exact .erased name
      · exact .kept

/-- **One step and the short names**: they stay as they are, or a skill is made and gets one that is
free. -/
theorem Step.short (h : Step st st') :
    (st'.collection.short = st.collection.short ∧ st'.made = st.made) ∨
      ∃ (b : Blueprint) (short : String), short.length ≤ 2 ∧
        st.collection.short.find? short = none ∧
        st'.collection.short = st.collection.short.insert short b.name ∧
        st'.made = b.build short :: st.made := by
  cases h with
  | create h =>
      obtain ⟨level, rfl⟩ := Collection.create_ok h
      exact Or.inl ⟨rfl, rfl⟩
  | @make c c' made b short h =>
      obtain ⟨hshort, rfl⟩ := Collection.abbreviate_ok h
      obtain ⟨hlength, hfree⟩ := Skill.abbreviate_ok hshort
      exact Or.inr ⟨b, short, hlength, hfree, rfl, rfl⟩
  | put hmade hsame h =>
      obtain ⟨set, t, -, -, -, rfl⟩ := Collection.add_ok h
      exact Or.inl ⟨rfl, rfl⟩
  | remove h =>
      obtain ⟨set, -, rfl⟩ := Collection.remove_ok h
      exact Or.inl ⟨rfl, rfl⟩

/-- What was made stays made. -/
theorem Step.made_subset (h : Step st st') : st.made ⊆ st'.made := by
  rcases h.short with ⟨-, hmade⟩ | ⟨b, short, -, -, -, hmade⟩
  · rw [hmade]
    exact List.Subset.refl _
  · rw [hmade]
    exact List.subset_cons_self _ _

/-- A short name keeps its skill. -/
theorem Step.find?_short (h : Step st st') {short name : String}
    (hfind : st.collection.short.find? short = some name) :
    st'.collection.short.find? short = some name := by
  rcases h.short with ⟨hsame, -⟩ | ⟨b, short', -, hfree, hinsert, -⟩
  · rw [hsame, hfind]
  · have hne : short ≠ short' := by
      rintro rfl
      rw [hfree] at hfind
      cases hfind
    rw [hinsert, Table.find?_insert_of_ne _ _ hne, hfind]

/-- What holds of a stock at all times: short names are short, every skill that was made has its
short name, and the sets hold skills that were made, by their names. -/
structure Sound (st : Stock) : Prop where
  short : ∀ short ∈ st.collection.short.keys, short.length ≤ 2
  made : ∀ m ∈ st.made, st.collection.short.find? m.abbreviation = some m.name
  sets : ∀ i, ∀ e ∈ (st.collection.skills i).entries, e.1 = e.2.name ∧ ∃ m ∈ st.made, e.2.Same m

theorem sound_empty : Sound {} where
  short := by simp [Table.keys, Table.empty]
  made := by simp
  sets := by simp [Collection.skills, Table.empty]

/-- **One step** keeps the stock sound. -/
theorem Step.sound (h : Step st st') (hsound : st.Sound) : st'.Sound where
  short := by
    rcases h.short with ⟨hsame, -⟩ | ⟨b, short, hlength, -, hinsert, -⟩
    · rw [hsame]
      exact hsound.short
    · intro k hk
      rw [hinsert, Table.keys_insert] at hk
      split at hk
      · exact hsound.short k hk
      · rcases List.mem_append.mp hk with hk | hk
        · exact hsound.short k hk
        · rw [List.mem_singleton.mp hk]
          exact hlength
  made := by
    intro m hm
    rcases h.short with ⟨-, hmade⟩ | ⟨b, short, -, -, hinsert, hmade⟩
    · rw [hmade] at hm
      exact h.find?_short (hsound.made m hm)
    · rw [hmade] at hm
      rcases List.mem_cons.mp hm with rfl | hm
      · rw [hinsert, Blueprint.abbreviation_build, Blueprint.name_build, Table.find?_insert_self]
      · exact h.find?_short (hsound.made m hm)
  sets := by
    have hold : ∀ i, ∀ e ∈ (st.collection.skills i).entries,
        e.1 = e.2.name ∧ ∃ m ∈ st'.made, e.2.Same m := by
      intro i e he
      obtain ⟨hname, m, hm, hsame⟩ := hsound.sets i e he
      exact ⟨hname, m, h.made_subset hm, hsame⟩
    intro i e he
    generalize hskills : st'.collection.skills i = skills at he
    have halters := h.alters i
    rw [hskills] at halters
    cases halters with
    | kept => exact hold i e he
    | @added set s m t hset hmade hsame hnew htakes =>
        rcases Table.mem_entries_insert he with rfl | he
        · exact ⟨htakes.name.symm, m, h.made_subset hmade,
            htakes.name.trans hsame.name, htakes.abbreviation.trans hsame.abbreviation⟩
        · rw [← Collection.skills_of_getElem? hset] at he
          exact hold i e he
    | erased name => exact hold i e (List.mem_filter.mp he).1

/-- **The stock is sound at all times.** -/
theorem Reaches.sound (h : Reaches st st') (hsound : st.Sound) : st'.Sound := by
  induction h with
  | refl => exact hsound
  | tail _ hstep ih => exact hstep.sound ih

/-- In a sound stock no short name is the name of a skill in a set, if the names are long enough. -/
theorem Sound.find?_of_short (h : st.Sound) (hnames : ∀ m ∈ st.made, 3 ≤ m.name.length)
    {short : String} (hshort : short ∈ st.collection.short.keys) (i : Nat) :
    (st.collection.skills i).find? short = none := by
  cases hfind : (st.collection.skills i).find? short with
  | none => rfl
  | some s =>
      obtain ⟨hname, m, hm, hsame⟩ := h.sets i _ (Table.find?_eq_some_iff.mp hfind)
      have hlength := h.short short hshort
      have hlong := hnames m hm
      have hsame : short = m.name := hname.trans hsame.name
      rw [← hsame] at hlong
      omega

/-- A skill of a set is found by its name. -/
theorem Sound.lookup_name (h : st.Sound) {s : Skill} (hs : s ∈ (st.collection.skills i).values) :
    (st.collection.skills i).lookup st.collection.short s.name = some s := by
  obtain ⟨e, he, rfl⟩ := List.mem_map.mp hs
  have hfind : (st.collection.skills i).find? e.2.name = some e.2 := by
    rw [Table.find?_eq_some_iff, ← (h.sets i e he).1]
    exact he
  simp [Skills.lookup, hfind]

/-- A skill of a set is found by its short name. -/
theorem Sound.lookup_abbreviation (h : st.Sound) (hnames : ∀ m ∈ st.made, 3 ≤ m.name.length)
    {s : Skill} (hs : s ∈ (st.collection.skills i).values) :
    (st.collection.skills i).lookup st.collection.short s.abbreviation = some s := by
  obtain ⟨e, he, rfl⟩ := List.mem_map.mp hs
  obtain ⟨hname, m, hm, hsame⟩ := h.sets i e he
  have hshort : st.collection.short.find? e.2.abbreviation = some e.2.name := by
    rw [hsame.abbreviation, hsame.name]
    exact h.made m hm
  have hkey : e.2.abbreviation ∈ st.collection.short.keys :=
    List.mem_map_of_mem (Table.find?_eq_some_iff.mp hshort)
  have hfind : (st.collection.skills i).find? e.2.name = some e.2 := by
    rw [Table.find?_eq_some_iff, ← hname]
    exact he
  simp [Skills.lookup, h.find?_of_short hnames hkey, hshort, hfind]

end Stock

/-! ## The workshop -/

/-- **Declaring a skill** makes it and puts it into a set.  If the set does not take it, the skill
is made nevertheless, and the sets are as before. -/
theorem Stock.reaches_declare (st : Stock) (i : Nat) (b : Blueprint) :
    ∃ st' : Stock, st.Reaches st' ∧
      (st.collection.declare i b.name b.build).2 = st'.collection ∧
      ∀ f, (st.collection.declare i b.name b.build).1 = .error f →
        st'.collection.sets = st.collection.sets ∧ st'.collection.named = st.collection.named := by
  unfold Collection.declare
  cases hmake : st.collection.abbreviate b.name with
  | error f => exact ⟨st, .refl, rfl, fun _ _ => ⟨rfl, rfl⟩⟩
  | ok made =>
      obtain ⟨short, c⟩ := made
      have hmade : st.Step ⟨c, b.build short :: st.made⟩ := .make hmake
      obtain ⟨-, rfl⟩ := Collection.abbreviate_ok hmake
      dsimp only
      cases hadd : Collection.add _ i (b.build short) with
      | error f => exact ⟨_, .single hmade, rfl, fun _ _ => ⟨rfl, rfl⟩⟩
      | ok c' =>
          refine ⟨⟨c', b.build short :: st.made⟩, .tail (.single hmade) ?_, rfl, nofun⟩
          exact .put List.mem_cons_self ⟨rfl, rfl⟩ hadd

namespace Skill.Workshop

/-- Adding a skill in the workshop is declaring it. -/
theorem add_eq_declare (w : Workshop) (set : String) (b : Blueprint) (script : List Result) :
    ∃ i, (w.add set b.name b.build script).2.collection =
        (w.collection.declare i b.name b.build).2 ∧
      ∀ f, (w.add set b.name b.build script).1 = .error f ↔
        (w.collection.declare i b.name b.build).1 = .error f := by
  unfold add
  dsimp only
  split
  · rename_i f c hdeclare
    exact ⟨_, by rw [hdeclare], fun f' => by simp [hdeclare]⟩
  · rename_i short c hdeclare
    exact ⟨_, by rw [hdeclare], fun f' => by simp [hdeclare]⟩

/-- Removing a skill in the workshop takes it out of a set, or changes nothing. -/
theorem remove_cases (w : Workshop) (set name : String) :
    (∃ f, w.remove set name = (.error f, w)) ∨
      ∃ i c, w.collection.remove i name = .ok c ∧
        w.remove set name = (.ok (), { w with collection := c }) := by
  cases hfind : w.collection.find set with
  | error f => exact Or.inl ⟨f, by simp [remove, update, bind, Except.bind, hfind]⟩
  | ok found =>
      cases hremove : w.collection.remove found.1 name with
      | error f => exact Or.inl ⟨f, by simp [remove, update, bind, Except.bind, hfind, hremove]⟩
      | ok c =>
          exact Or.inr ⟨found.1, c, hremove, by
            simp [remove, update, bind, Except.bind, hfind, hremove]⟩

end Skill.Workshop

/-- **Every skill in a set is found by its name and by its short name**, after any making of sets
and skills, adding and removing, as long as the names of the skills have at least three characters.
A set refuses a skill, or its removal, for a reason; and a workshop in which an addition or a
removal fails has the same sets as before. -/
theorem skill_found_by_both_names {st : Stock} (hreaches : Stock.Reaches {} st)
    (hnames : ∀ m ∈ st.made, 3 ≤ m.name.length) :
    (∀ i, ∀ s ∈ (st.collection.skills i).values,
      (st.collection.skills i).lookup st.collection.short s.name = some s ∧
      (st.collection.skills i).lookup st.collection.short s.abbreviation = some s) ∧
    (∀ i set, st.collection.sets[i]? = some set →
      (∀ s f, st.collection.add i s = .error f → st.collection.Refuses set s f) ∧
      ∀ name f, st.collection.remove i name = .error f →
        set.skills.find? name = none ∧ f = .unknownSkill name) ∧
    ∀ w : Workshop, w.collection = st.collection →
      (∀ set (b : Blueprint) script, ∃ st', st.Reaches st' ∧
        (w.add set b.name b.build script).2.collection = st'.collection ∧
        ∀ f, (w.add set b.name b.build script).1 = .error f →
          st'.collection.sets = st.collection.sets ∧
          st'.collection.named = st.collection.named) ∧
      ∀ set name, ∃ st', st.Reaches st' ∧
        (w.remove set name).2.collection = st'.collection ∧
        ∀ f, (w.remove set name).1 = .error f → st' = st := by
  have hsound := hreaches.sound Stock.sound_empty
  refine ⟨fun i s hs => ⟨hsound.lookup_name hs, hsound.lookup_abbreviation hnames hs⟩, ?_, ?_⟩
  · intro i set hset
    constructor
    · intro s f hadd
      rcases Collection.add_error hadd with ⟨hnone, -⟩ | ⟨set', hset', hrefuses⟩
      · rw [hset] at hnone
        cases hnone
      · rw [hset] at hset'
        cases hset'
        exact hrefuses
    · intro name f hremove
      rcases Collection.remove_error hremove with ⟨hnone, -⟩ | ⟨set', hset', hreason⟩
      · rw [hset] at hnone
        cases hnone
      · rw [hset] at hset'
        cases hset'
        exact hreason
  · intro w hw
    constructor
    · intro set b script
      obtain ⟨i, hcollection, herror⟩ := w.add_eq_declare set b script
      rw [hw] at hcollection herror
      obtain ⟨st', hst, hdeclare, hunchanged⟩ := st.reaches_declare i b
      exact ⟨st', hst, hcollection.trans hdeclare, fun f hf => hunchanged f ((herror f).mp hf)⟩
    · intro set name
      rcases w.remove_cases set name with ⟨f, hfails⟩ | ⟨i, c, hremove, hok⟩
      · rw [hfails]
        exact ⟨st, .refl, hw, fun _ _ => rfl⟩
      · rw [hok]
        rw [hw] at hremove
        exact ⟨⟨c, st.made⟩, .single (.remove hremove), rfl, nofun⟩

/-- A skill without parameters. -/
def Blueprint.plain (name : String) : Blueprint := .basic name "" [] .operation

/-- A skill whose initials are still free. -/
def Skill.moveForward : Skill := (Blueprint.plain "move_forward").build "mf"

/-- One whose initials are taken by then. -/
def Skill.moveFast : Skill := (Blueprint.plain "move_fast").build "mo"

/-- One set with some skills, and the short names that were given. -/
def Collection.robot (skills : List (String × Skill)) (short : List (String × String)) :
    Collection :=
  { sets := #[{ level := .low, lower := none, skills := .ofList skills }]
    named := .ofList [("robot", 0)]
    short := .ofList short }

/-- Two skills with the same initials are made and put into a set, and the first is taken out again:
the second keeps the short name that it got because the initials were taken. -/
theorem skill_found_by_both_names_same_initials :
    ∃ st : Stock, Stock.Reaches {} st ∧ (∀ m ∈ st.made, 3 ≤ m.name.length) ∧
      (st.collection.skills 0).values = [moveFast] ∧
      (st.collection.skills 0).lookup st.collection.short "move_fast" = some moveFast ∧
      (st.collection.skills 0).lookup st.collection.short "mo" = some moveFast := by
  let short := [("mf", "move_forward"), ("mo", "move_fast")]
  have hset : Stock.Reaches {} ⟨.robot [] [], []⟩ :=
    .single (.create (show Collection.create {} "robot" "low" none = .ok _ from rfl))
  have hforward : Stock.Reaches {} ⟨.robot [] (short.take 1), [moveForward]⟩ :=
    hset.tail (.make (b := .plain "move_forward") rfl)
  have hfirst : Stock.Reaches {}
      ⟨.robot [("move_forward", moveForward)] (short.take 1), [moveForward]⟩ :=
    hforward.tail (.put (i := 0) List.mem_cons_self ⟨rfl, rfl⟩ rfl)
  have hfast : Stock.Reaches {}
      ⟨.robot [("move_forward", moveForward)] short, [moveFast, moveForward]⟩ :=
    hfirst.tail (.make (b := .plain "move_fast") rfl)
  have hsecond : Stock.Reaches {}
      ⟨.robot [("move_forward", moveForward), ("move_fast", moveFast)] short,
        [moveFast, moveForward]⟩ :=
    hfast.tail (.put (i := 0) List.mem_cons_self ⟨rfl, rfl⟩ rfl)
  have hremoved : Stock.Reaches {}
      ⟨.robot [("move_fast", moveFast)] short, [moveFast, moveForward]⟩ :=
    hsecond.tail (.remove (show Collection.remove _ 0 "move_forward" = .ok _ from rfl))
  have hnames : ∀ m ∈ [moveFast, moveForward], 3 ≤ m.name.length := by decide
  obtain ⟨hfound, -, -⟩ := skill_found_by_both_names hremoved hnames
  obtain ⟨hname, hshort⟩ := hfound 0 moveFast List.mem_cons_self
  exact ⟨_, hremoved, hnames, rfl, hname, hshort⟩

end DronePilot
