import DronePilot.Proofs.Computation
import DronePilot.Proofs.Padding

/-!
# Compound conditions

A condition is written as groups joined by ampersands, each of them atoms joined by bars.  Its atoms
may call skills, so besides the truth value it matters which of them are evaluated and in what
order: in each group those up to and including the first true one, and every group is entered, also
after a group that failed.  An atom that asks for a new plan or halts ends the whole.

* `Weighed` — things evaluated one after the other, with the truth values that they came to.
* `Condition.exec_any`, `Condition.exec_all` — a disjunction and a conjunction whose parts come to
  truth values; `Condition.exec_any_interrupted`, `Condition.exec_all_interrupted` — and those that
  are interrupted.
* `compound_condition_concludes` — what a compound condition comes to.
-/

namespace DronePilot.Plan

open DronePilot.Text

variable {σ α : Type}

/-- A condition as it is written: groups of atoms.  Atoms hold neither ampersands nor bars. -/
structure CompoundText where
  groups : List (List (List Char))
  some_group : groups ≠ []
  some_atom : ∀ group ∈ groups, group ≠ []
  plain : ∀ group ∈ groups, ∀ atom ∈ group, '&' ∉ atom ∧ '|' ∉ atom

/-- The groups joined by ampersands, their atoms joined by bars. -/
def CompoundText.chars (t : CompoundText) : List Char :=
  glue '&' (t.groups.map (glue '|'))

/-- The pairs up to and including the first one with the mark. -/
def throughTrue : List (α × Bool) → List (α × Bool)
  | [] => []
  | (a, true) :: _ => [(a, true)]
  | (a, false) :: rest => (a, false) :: throughTrue rest

/-- A truth value for each member of each group. -/
def SameShape (groups : List (List α)) (values : List (List Bool)) : Prop :=
  List.Forall₂ (fun group truths => truths.length = group.length) groups values

/-- What is evaluated if the members of the groups have these truth values: in each group, those up
to and including the first true one. -/
def attempts (groups : List (List α)) (values : List (List Bool)) : List (α × Bool) :=
  (List.zipWith (fun group truths => throughTrue (group.zip truths)) groups values).flatten

/-- Things evaluated one after the other, each from where the one before ended, with the truth
values that they come to. -/
inductive Weighed (eval : α → Run σ Verdict) : Scope σ → List (α × Bool) → Scope σ → Prop
  | nil (s : Scope σ) : Weighed eval s [] s
  | cons {s s₁ s' : Scope σ} {a : α} {b : Bool} {rest : List (α × Bool)}
      (h : (eval a).exec s = (.ok (.holds b), s₁)) (hrest : Weighed eval s₁ rest s') :
      Weighed eval s ((a, b) :: rest) s'

/-- The evaluation came to no truth value: a new plan is asked for, or it halted. -/
def Interrupts (outcome : Except Halt Verdict) : Prop :=
  ∀ b, outcome ≠ .ok (.holds b)

/-- What groups of atoms come to. -/
inductive Conclusion (eval : α → Run σ Verdict) (groups : List (List α)) (s : Scope σ) :
    Except Halt Verdict × Scope σ → Prop
  /-- Every atom that is evaluated comes to a truth value.  The whole holds if in every group some
  atom does. -/
  | truth {values : List (List Bool)} {s' : Scope σ} (hshape : SameShape groups values)
      (hweighed : Weighed eval s (attempts groups values) s') :
      Conclusion eval groups s (.ok (.holds (values.all fun truths => truths.any id)), s')
  /-- The first atom that is evaluated and comes to no truth value ends the whole: before it, all
  groups before its own were evaluated, and the atoms before it in its group failed. -/
  | interrupted {before after : List (List α)} {earlier others : List α} {a : α}
      {values : List (List Bool)} {s₁ s' : Scope σ} {outcome : Except Halt Verdict}
      (hgroups : groups = before ++ (earlier ++ a :: others) :: after)
      (hshape : SameShape before values)
      (hweighed : Weighed eval s (attempts before values ++ earlier.map (·, false)) s₁)
      (hatom : (eval a).exec s₁ = (outcome, s')) (houtcome : Interrupts outcome) :
      Conclusion eval groups s (outcome, s')

/-! ### Sequences of evaluations -/

section

variable {eval : α → Run σ Verdict}

theorem weighed_append {s s' : Scope σ} {xs ys : List (α × Bool)} :
    Weighed eval s (xs ++ ys) s' ↔ ∃ s₁, Weighed eval s xs s₁ ∧ Weighed eval s₁ ys s' := by
  constructor
  · intro h
    induction xs generalizing s with
    | nil => exact ⟨s, .nil s, h⟩
    | cons x xs ih =>
        cases h with
        | cons hx hrest =>
            obtain ⟨s₂, hxs, hys⟩ := ih hrest
            exact ⟨s₂, .cons hx hxs, hys⟩
  · rintro ⟨s₁, hxs, hys⟩
    induction hxs with
    | nil s => exact hys
    | cons hx _ ih => exact .cons hx (ih hys)

/-- Things are tried one after the other until one holds or comes to no truth value. -/
theorem tried_or_interrupted (eval : α → Run σ Verdict) (xs : List α) (s : Scope σ) :
    (∃ values s', values.length = xs.length ∧ Weighed eval s (throughTrue (xs.zip values)) s') ∨
      ∃ earlier a others s₁ outcome s', xs = earlier ++ a :: others ∧
        Weighed eval s (earlier.map (·, false)) s₁ ∧
        (eval a).exec s₁ = (outcome, s') ∧ Interrupts outcome := by
  induction xs generalizing s with
  | nil => exact Or.inl ⟨[], s, rfl, .nil s⟩
  | cons a rest ih =>
      cases ha : (eval a).exec s with
      | mk outcome s₁ =>
          by_cases hinterrupts : Interrupts outcome
          · exact Or.inr ⟨[], a, rest, s, outcome, s₁, rfl, .nil s, ha, hinterrupts⟩
          · simp only [Interrupts, not_forall, not_not] at hinterrupts
            obtain ⟨b, rfl⟩ := hinterrupts
            cases b with
            | true =>
                -- Those after it are not tried, so their truth values do not matter.
                exact Or.inl ⟨true :: rest.map fun _ => false, s₁, by simp, .cons ha (.nil s₁)⟩
            | false =>
                rcases ih s₁ with ⟨values, s', hlength, hweighed⟩ |
                  ⟨earlier, x, others, s₂, outcome, s', rfl, hweighed, hx, houtcome⟩
                · exact Or.inl ⟨false :: values, s', by simp [hlength], .cons ha hweighed⟩
                · exact Or.inr ⟨a :: earlier, x, others, s₂, outcome, s', rfl,
                    .cons ha hweighed, hx, houtcome⟩

end

/-! ### Disjunctions and conjunctions -/

section

variable {call : Call → Run σ Result} {left right : Condition} {s s₁ s' : Scope σ}
  {outcome : Except Halt Verdict}

/-- What a part of a condition came to, other than a truth value, is what the whole comes to. -/
theorem exec_bind_interrupted {x : Run σ Verdict} {f : Verdict → Run σ Verdict}
    (h : x.exec s = (outcome, s₁)) (houtcome : Interrupts outcome)
    (hf : ∀ r, f (.replan r) = pure (.replan r)) : (x >>= f).exec s = (outcome, s₁) := by
  cases outcome with
  | error g => exact Run.exec_bind_error h f
  | ok v =>
      cases v with
      | holds b => exact absurd rfl (houtcome b)
      | replan r => rw [Run.exec_bind_ok h, hf, Run.exec_pure]

/-- The right side of a disjunction is evaluated only if the left one fails. -/
theorem Condition.exec_either {b : Bool} (h : (left.eval call).exec s = (.ok (.holds b), s₁)) :
    ((Condition.either left right).eval call).exec s =
      if b then (.ok (.holds true), s₁) else (right.eval call).exec s₁ := by
  rw [Condition.eval, Run.exec_bind_ok h]
  cases b <;> rfl

theorem Condition.exec_either_interrupted (h : (left.eval call).exec s = (outcome, s'))
    (houtcome : Interrupts outcome) :
    ((Condition.either left right).eval call).exec s = (outcome, s') := by
  rw [Condition.eval]
  exact exec_bind_interrupted h houtcome fun _ => rfl

/-- Both sides of a conjunction are evaluated. -/
theorem Condition.exec_both {a b : Bool} (hleft : (left.eval call).exec s = (.ok (.holds a), s₁))
    (hright : (right.eval call).exec s₁ = (.ok (.holds b), s')) :
    ((Condition.both left right).eval call).exec s = (.ok (.holds (a && b)), s') := by
  rw [Condition.eval, Run.exec_bind_ok hleft]
  simp only
  rw [Run.exec_bind_ok hright, Run.exec_pure]

theorem Condition.exec_both_interrupted (h : (left.eval call).exec s = (outcome, s'))
    (houtcome : Interrupts outcome) :
    ((Condition.both left right).eval call).exec s = (outcome, s') := by
  rw [Condition.eval]
  exact exec_bind_interrupted h houtcome fun _ => rfl

theorem Condition.exec_both_interrupted_right {a : Bool}
    (hleft : (left.eval call).exec s = (.ok (.holds a), s₁))
    (hright : (right.eval call).exec s₁ = (outcome, s')) (houtcome : Interrupts outcome) :
    ((Condition.both left right).eval call).exec s = (outcome, s') := by
  rw [Condition.eval, Run.exec_bind_ok hleft]
  exact exec_bind_interrupted hright houtcome fun _ => rfl

variable {f : α → Condition} {xs earlier others : List α} {a : α} {values : List Bool}

/-- **A disjunction whose members come to truth values** holds if one of them does. -/
theorem Condition.exec_any (hne : xs ≠ []) (hlength : values.length = xs.length)
    (h : Weighed (fun a => (f a).eval call) s (throughTrue (xs.zip values)) s') :
    ((Condition.any (xs.map f)).eval call).exec s = (.ok (.holds (values.any id)), s') := by
  induction xs generalizing values s with
  | nil => exact absurd rfl hne
  | cons a rest ih =>
      obtain ⟨b, truths, rfl⟩ := List.exists_cons_of_length_eq_add_one hlength
      have hrest : truths.length = rest.length := by simpa using hlength
      cases rest with
      | nil =>
          have htruths : truths = [] := List.length_eq_zero_iff.1 hrest
          subst htruths
          have hone : Weighed (fun a => (f a).eval call) s [(a, b)] s' := by
            cases b <;> exact h
          cases hone with
          | cons ha hnil =>
              cases hnil
              simpa [Condition.any] using ha
      | cons next rest =>
          have hany : Condition.any ((a :: next :: rest).map f) =
              .either (f a) (Condition.any ((next :: rest).map f)) := rfl
          rw [hany]
          cases b with
          | true =>
              cases h with
              | cons ha hnil =>
                  cases hnil
                  rw [Condition.exec_either ha]
                  simp
          | false =>
              cases h with
              | cons ha htried =>
                  rw [Condition.exec_either ha, if_neg (by simp),
                    ih (List.cons_ne_nil _ _) hrest htried]
                  simp

/-- A disjunction is interrupted by the first member that comes to no truth value, if those before
it fail. -/
theorem Condition.exec_any_interrupted
    (hearlier : Weighed (fun a => (f a).eval call) s (earlier.map (·, false)) s₁)
    (ha : ((f a).eval call).exec s₁ = (outcome, s')) (houtcome : Interrupts outcome) :
    ((Condition.any ((earlier ++ a :: others).map f)).eval call).exec s = (outcome, s') := by
  induction earlier generalizing s with
  | nil =>
      cases hearlier
      cases others with
      | nil => exact ha
      | cons next others => exact Condition.exec_either_interrupted ha houtcome
  | cons first earlier ih =>
      cases hearlier with
      | cons hfirst hearlier =>
          have hany : Condition.any ((first :: earlier ++ a :: others).map f) =
              .either (f first) (Condition.any ((earlier ++ a :: others).map f)) := by
            cases earlier <;> rfl
          rw [hany, Condition.exec_either hfirst, if_neg (by simp)]
          exact ih hearlier

/-- Joining further members to a conjunction that has come to a truth value. -/
theorem Condition.exec_foldl_both {whole : Condition} {b : Bool}
    (hwhole : (whole.eval call).exec s = (.ok (.holds b), s₁))
    (hlength : values.length = xs.length)
    (h : Weighed (fun a => (f a).eval call) s₁ (xs.zip values) s') :
    (((xs.map f).foldl .both whole).eval call).exec s =
      (.ok (.holds (b && values.all id)), s') := by
  induction xs generalizing whole b values s₁ with
  | nil =>
      have hvalues : values = [] := List.length_eq_zero_iff.1 hlength
      subst hvalues
      cases h
      simpa using hwhole
  | cons a rest ih =>
      obtain ⟨truth, truths, rfl⟩ := List.exists_cons_of_length_eq_add_one hlength
      cases h with
      | cons ha hrest =>
          rw [List.map_cons, List.foldl_cons,
            ih (Condition.exec_both hwhole ha) (by simpa using hlength) hrest]
          simp [Bool.and_assoc]

/-- A conjunction that has been interrupted stays so. -/
theorem Condition.exec_foldl_both_interrupted {whole : Condition}
    (hwhole : (whole.eval call).exec s = (outcome, s')) (houtcome : Interrupts outcome)
    (rest : List Condition) : ((rest.foldl .both whole).eval call).exec s = (outcome, s') := by
  induction rest generalizing whole with
  | nil => exact hwhole
  | cons c rest ih => exact ih (Condition.exec_both_interrupted hwhole houtcome)

/-- **A conjunction whose members come to truth values** holds if all of them do. -/
theorem Condition.exec_all (hne : xs ≠ []) (hlength : values.length = xs.length)
    (h : Weighed (fun a => (f a).eval call) s (xs.zip values) s') :
    ((Condition.all (xs.map f)).eval call).exec s = (.ok (.holds (values.all id)), s') := by
  cases xs with
  | nil => exact absurd rfl hne
  | cons a rest =>
      obtain ⟨truth, truths, rfl⟩ := List.exists_cons_of_length_eq_add_one hlength
      cases h with
      | cons ha hrest =>
          rw [List.map_cons, Condition.all,
            Condition.exec_foldl_both ha (by simpa using hlength) hrest]
          simp

/-- A conjunction is interrupted by the first member that comes to no truth value. -/
theorem Condition.exec_all_interrupted (hlength : values.length = earlier.length)
    (hearlier : Weighed (fun a => (f a).eval call) s (earlier.zip values) s₁)
    (ha : ((f a).eval call).exec s₁ = (outcome, s')) (houtcome : Interrupts outcome) :
    ((Condition.all ((earlier ++ a :: others).map f)).eval call).exec s = (outcome, s') := by
  cases earlier with
  | nil =>
      cases hearlier
      exact Condition.exec_foldl_both_interrupted ha houtcome _
  | cons first earlier =>
      obtain ⟨truth, truths, rfl⟩ := List.exists_cons_of_length_eq_add_one hlength
      cases hearlier with
      | cons hfirst hearlier =>
          have hwhole := Condition.exec_foldl_both hfirst (by simpa using hlength) hearlier
          rw [List.cons_append, List.map_cons, Condition.all, List.map_append, List.map_cons,
            List.foldl_append, List.foldl_cons]
          exact Condition.exec_foldl_both_interrupted
            (Condition.exec_both_interrupted_right hwhole ha houtcome) houtcome _

end

/-! ### Groups of atoms -/

/-- Groups always come to something: their atoms are tried one after the other until one comes to no
truth value. -/
theorem exists_conclusion (eval : α → Run σ Verdict) (groups : List (List α)) (s : Scope σ) :
    ∃ x, Conclusion eval groups s x := by
  induction groups generalizing s with
  | nil => exact ⟨_, .truth .nil (.nil s)⟩
  | cons group rest ih =>
      rcases tried_or_interrupted eval group s with ⟨truths, s₁, hlength, htried⟩ |
        ⟨earlier, a, others, s₁, outcome, s', rfl, htried, ha, houtcome⟩
      · obtain ⟨x, hx⟩ := ih s₁
        cases hx with
        | truth hshape hweighed =>
            exact ⟨_, .truth (.cons hlength hshape) (weighed_append.2 ⟨s₁, htried, hweighed⟩)⟩
        | @interrupted before after _ _ _ values _ _ _ hgroups hshape hweighed ha houtcome =>
            have hshape' : SameShape (group :: before) (truths :: values) := .cons hlength hshape
            refine ⟨_, .interrupted (by rw [hgroups, List.cons_append]) hshape' ?_ ha houtcome⟩
            rw [attempts, List.zipWith_cons_cons, List.flatten_cons, List.append_assoc]
            exact weighed_append.2 ⟨s₁, htried, hweighed⟩
      · have hshape : SameShape ([] : List (List α)) [] := .nil
        exact ⟨_, .interrupted rfl hshape htried ha houtcome⟩

section

variable {call : Call → Run σ Result} {f : α → Condition} {groups : List (List α)}
  {values : List (List Bool)} {s s' : Scope σ}

/-- Atoms that come to truth values bring their groups to truth values. -/
theorem Weighed.grouped (hne : ∀ group ∈ groups, group ≠ []) (hshape : SameShape groups values)
    (h : Weighed (fun a => (f a).eval call) s (attempts groups values) s') :
    Weighed (fun group => (Condition.any (group.map f)).eval call) s
      (groups.zip (values.map fun truths => truths.any id)) s' := by
  induction hshape generalizing s with
  | nil =>
      cases h
      exact .nil _
  | cons hlength _ ih =>
      obtain ⟨hgroup, hrest⟩ := List.forall_mem_cons.1 hne
      rw [attempts, List.zipWith_cons_cons, List.flatten_cons] at h
      obtain ⟨s₁, htried, hweighed⟩ := weighed_append.1 h
      exact .cons (Condition.exec_any hgroup hlength htried) (ih hrest hweighed)

/-- **Groups joined to a condition** come to what their atoms come to. -/
theorem Conclusion.exec (hsome : groups ≠ []) (hne : ∀ group ∈ groups, group ≠ [])
    {x : Except Halt Verdict × Scope σ}
    (h : Conclusion (fun a => (f a).eval call) groups s x) :
    ((Condition.all (groups.map fun group => Condition.any (group.map f))).eval call).exec s =
      x := by
  cases h with
  | @truth values s' hshape hweighed =>
      have hlength : (values.map fun truths => truths.any id).length = groups.length := by
        rw [List.length_map, ← hshape.length_eq]
      rw [Condition.exec_all hsome hlength (hweighed.grouped hne hshape)]
      simp [List.all_map]
  | @interrupted before after earlier others a values s₁ s' outcome hgroups hshape hweighed ha
      houtcome =>
      subst hgroups
      obtain ⟨hbefore, -⟩ := List.forall_mem_append.1 hne
      obtain ⟨s₀, hgroups, hearlier⟩ := weighed_append.1 hweighed
      have hlength : (values.map fun truths => truths.any id).length = before.length := by
        rw [List.length_map, ← hshape.length_eq]
      exact Condition.exec_all_interrupted hlength (hgroups.grouped hbefore hshape)
        (Condition.exec_any_interrupted hearlier ha houtcome) houtcome

end

/-! ### Compound conditions as texts -/

theorem mem_glue {sep c : Char} {parts : List (List Char)} (h : c ∈ glue sep parts) :
    c = sep ∨ ∃ part ∈ parts, c ∈ part := by
  fun_induction glue sep parts with
  | case1 => cases h
  | case2 part => exact Or.inr ⟨part, List.mem_singleton_self part, h⟩
  | case3 part rest _ ih =>
      rcases List.mem_append.1 h with hpart | hrest
      · exact Or.inr ⟨part, List.mem_cons_self, hpart⟩
      · rcases List.mem_cons.1 hrest with hsep | hrest
        · exact Or.inl hsep
        · exact (ih hrest).imp_right fun ⟨part', hmem, hc⟩ =>
            ⟨part', List.mem_cons_of_mem _ hmem, hc⟩

/-- A text without ampersands and bars is a comparison. -/
theorem Condition.ofText_atom {a : List Char} (hand : '&' ∉ a) (hor : '|' ∉ a) :
    Condition.ofText a = Condition.ofComparison a := by
  rw [Condition.ofText, pieces_of_not_mem hand, List.map_singleton, Condition.all, List.foldl_nil,
    Condition.ofGroup, pieces_of_not_mem hor, List.map_singleton, Condition.any]

theorem CompoundText.ofText_chars (t : CompoundText) :
    Condition.ofText t.chars =
      .all (t.groups.map fun group => Condition.any (group.map Condition.ofText)) := by
  have hand : ∀ part ∈ t.groups.map (glue '|'), '&' ∉ part := by
    intro part hpart hmem
    obtain ⟨group, hgroup, rfl⟩ := List.mem_map.1 hpart
    rcases mem_glue hmem with heq | ⟨atom, hatom, hc⟩
    · cases heq
    · exact (t.plain group hgroup atom hatom).1 hc
  rw [Condition.ofText, CompoundText.chars, pieces_glue (by simpa using t.some_group) hand,
    List.map_map]
  congr 1
  apply List.map_congr_left
  intro group hgroup
  have hor : ∀ atom ∈ group, '|' ∉ atom := fun atom hatom => (t.plain group hgroup atom hatom).2
  rw [Function.comp_apply, Condition.ofGroup, pieces_glue (t.some_atom group hgroup) hor]
  congr 1
  apply List.map_congr_left
  intro atom hatom
  obtain ⟨hplain, hplain'⟩ := t.plain group hgroup atom hatom
  rw [Condition.ofText_atom hplain hplain']

/-- A condition that asks for a new plan has a result that does. -/
theorem Condition.replan_of_exec {call : Call → Run σ Result} {c : Condition} {s s' : Scope σ}
    {r : Result} (h : (c.eval call).exec s = (.ok (.replan r), s')) : r.replan = true := by
  induction c generalizing s with
  | both left right ihleft ihright =>
      obtain ⟨v, s₁, hleft, hrest⟩ := Run.ok_of_exec_bind h
      cases v with
      | replan r' =>
          cases hrest
          exact ihleft hleft
      | holds a =>
          obtain ⟨w, s₂, hright, hrest⟩ := Run.ok_of_exec_bind hrest
          cases w with
          | replan r' =>
              cases hrest
              exact ihright hright
          | holds b => cases hrest
  | either left right ihleft ihright =>
      obtain ⟨v, s₁, hleft, hrest⟩ := Run.ok_of_exec_bind h
      cases v with
      | replan r' =>
          cases hrest
          exact ihleft hleft
      | holds a =>
          cases a with
          | true => cases hrest
          | false => exact ihright hrest
  | compare left comparator right =>
      obtain ⟨a, s₁, -, hrest⟩ := Run.ok_of_exec_bind h
      cases ha : a.replan with
      | true =>
          simp only [ha, if_true] at hrest
          cases hrest
          exact ha
      | false =>
          simp only [ha, Bool.false_eq_true, if_false] at hrest
          obtain ⟨b, s₂, -, hrest⟩ := Run.ok_of_exec_bind hrest
          cases hb : b.replan with
          | true =>
              simp only [hb, if_true] at hrest
              cases hrest
              exact hb
          | false =>
              simp only [hb, Bool.false_eq_true, if_false] at hrest
              obtain ⟨-, s₃, -, hrest⟩ := Run.ok_of_exec_bind hrest
              obtain ⟨holds, s₄, -, hrest⟩ := Run.ok_of_exec_bind hrest
              cases hrest
  | malformed => cases h

/-- **What a compound condition comes to.**  Whatever its atoms do, exactly one thing: their
conclusion.  If every atom that is evaluated comes to a truth value, the condition holds if in every
group some atom holds; evaluated are, from left to right, in every group the atoms up to and
including the first true one.  Otherwise the first atom that asks for a new plan or halts ends the
evaluation, and the condition comes to what that atom came to.  A result that does not ask for a new
plan is a truth value. -/
theorem compound_condition_concludes (call : Call → Run σ Result) (t : CompoundText)
    (s : Scope σ) :
    (∀ x, ((Condition.ofText t.chars).eval call).exec s = x ↔
      Conclusion (fun atom => (Condition.ofText atom).eval call) t.groups s x) ∧
    ∀ v s', ((Condition.ofText t.chars).eval call).exec s = (.ok v, s') →
      v.result.replan = false → ∃ b, v.result = .ofValue (.bool b) := by
  have hexec : ∀ {x}, Conclusion (fun atom => (Condition.ofText atom).eval call) t.groups s x →
      ((Condition.ofText t.chars).eval call).exec s = x := by
    intro x hx
    rw [t.ofText_chars]
    exact hx.exec t.some_group t.some_atom
  refine ⟨fun x => ⟨?_, hexec⟩, ?_⟩
  · intro h
    obtain ⟨y, hy⟩ :=
      exists_conclusion (fun atom => (Condition.ofText atom).eval call) t.groups s
    rw [← h, hexec hy]
    exact hy
  · intro v s' h hplan
    cases v with
    | holds b => exact ⟨b, rfl⟩
    | replan r =>
        have hreplan := Condition.replan_of_exec h
        rw [Verdict.result, hreplan] at hplan
        cases hplan

end DronePilot.Plan
