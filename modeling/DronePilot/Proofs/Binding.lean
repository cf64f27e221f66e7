import DronePilot.Proofs.Isolation
import DronePilot.Proofs.Padding

/-!
# Conditions and the variables

The operands of a comparison are analysed as any expression is, so an operand with an equals sign in
it assigns.  Such operands are easily written by accident: a comparison is cut at the first of its
four comparators, so that `_1>=3` compares `_1` with the operand `=3`, which gives the variable
without a name the value 3.

* `Condition.assignments` — the assignments that the evaluation of a condition makes.
* `Toolkit.callWithin_keepsBindings`, `Expr.assignless_ofText` — neither calls nor expressions
  without an equals sign change the variables.
* `condition_assigns_operands` — the variables after a condition, and when they are those before it.
* `greaterEqual_assigns` — a condition that changes them.
-/

namespace DronePilot.Table

variable {κ α : Type} [DecidableEq κ]

/-- A key has the last of the values that it was given, or its old one. -/
theorem find?_insertAll (t : Table κ α) (pairs : List (κ × α)) (k : κ) :
    (t.insertAll pairs).find? k = ((ofList pairs).find? k).or (t.find? k) := by
  induction pairs generalizing t with
  | nil => rfl
  | cons e rest ih =>
      have hlist : ofList (e :: rest) = (empty.insert e.1 e.2).insertAll rest := rfl
      have hfirst : ((t.insert e.1 e.2).find? k) =
          ((empty.insert e.1 e.2).find? k).or (t.find? k) := by
        by_cases hk : k = e.1
        · rw [hk, find?_insert_self, find?_insert_self, Option.some_or]
        · rw [find?_insert_of_ne _ _ hk, find?_insert_of_ne _ _ hk, find?_empty, Option.none_or]
      rw [hlist, ih (empty.insert e.1 e.2), Option.or_assoc, ← hfirst]
      exact ih (t.insert e.1 e.2)

/-- A key that is inserted among others is there. -/
theorem mem_keys_insertAll {t : Table κ α} {pairs : List (κ × α)} {e : κ × α} (h : e ∈ pairs) :
    e.1 ∈ (t.insertAll pairs).keys := by
  have hkeep : ∀ {k : κ} (rest : List (κ × α)) {t : Table κ α}, k ∈ t.keys →
      k ∈ (t.insertAll rest).keys := by
    intro k rest
    induction rest with
    | nil => exact fun hk => hk
    | cons e' rest ih =>
        intro t hk
        have hinsert : k ∈ (t.insert e'.1 e'.2).keys := by
          rw [keys_insert]
          split
          · exact hk
          · exact List.mem_append_left _ hk
        exact ih hinsert
  obtain ⟨before, after, rfl⟩ := List.append_of_mem h
  rw [insertAll_append]
  refine hkeep after (t := (t.insertAll before).insert e.1 e.2) ?_
  rw [keys_insert]
  split
  · assumption
  · exact List.mem_append_right _ (List.mem_singleton_self e.1)

/-- Giving new values to keys that are there moves no key. -/
theorem keys_insertAll {t : Table κ α} {pairs : List (κ × α)} (h : ∀ e ∈ pairs, e.1 ∈ t.keys) :
    (t.insertAll pairs).keys = t.keys := by
  induction pairs generalizing t with
  | nil => rfl
  | cons e rest ih =>
      obtain ⟨he, hrest⟩ := List.forall_mem_cons.1 h
      have hkeys : (t.insert e.1 e.2).keys = t.keys := by rw [keys_insert, if_pos he]
      have hrest' : ∀ e' ∈ rest, e'.1 ∈ (t.insert e.1 e.2).keys := by rwa [hkeys]
      exact (ih hrest').trans hkeys

/-- The entries are the keys with the values that are found for them. -/
theorem entries_eq (t : Table κ α) :
    t.entries = t.keys.filterMap fun k => (t.find? k).map (k, ·) := by
  have hentry : ∀ e ∈ t.entries,
      ((fun k => (t.find? k).map (k, ·)) ∘ Prod.fst) e = some e := by
    intro e he
    rw [Function.comp_apply, find?_eq_some_iff.2 he, Option.map_some]
  rw [keys, List.filterMap_map, List.filterMap_congr hentry, List.filterMap_some]

/-- Tables with the same keys in the same order and the same values are equal. -/
theorem ext_find? {t u : Table κ α} (hkeys : t.keys = u.keys) (hfind : ∀ k, t.find? k = u.find? k) :
    t = u := by
  apply ext_entries
  rw [entries_eq t, entries_eq u, hkeys]
  simp only [hfind]

/-- **When values given to keys change nothing**: each key ends with the value that it had. -/
theorem insertAll_eq_self_iff {t : Table κ α} {pairs : List (κ × α)} :
    t.insertAll pairs = t ↔ ∀ k v, (ofList pairs).find? k = some v → t.find? k = some v := by
  constructor
  · intro h k v hfind
    rw [← h, find?_insertAll, hfind, Option.some_or]
  · intro h
    have hmem : ∀ e ∈ pairs, e.1 ∈ t.keys := by
      intro e he
      cases hfind : (ofList pairs).find? e.1 with
      | none => exact absurd (mem_keys_insertAll he) (find?_eq_none_iff.1 hfind)
      | some v =>
          have hkey : t.find? e.1 ≠ none := by simp [h e.1 v hfind]
          exact not_not.1 (mt find?_eq_none_iff.2 hkey)
    apply ext_find? (keys_insertAll hmem)
    intro k
    rw [find?_insertAll]
    cases hfind : (ofList pairs).find? k with
    | none => rw [Option.none_or]
    | some v => rw [Option.some_or, h k v hfind]

end DronePilot.Table

namespace DronePilot.Plan

open DronePilot.Text DronePilot.Skill

variable {σ α β : Type}

/-! ### What keeps the variables -/

/-- The computation leaves the variables as they were, also if it halts. -/
def Run.KeepsBindings (x : Run σ α) : Prop :=
  ∀ s, (x.exec s).2.bindings = s.bindings

namespace Run

/-- A sealed computation keeps the variables. -/
theorem Sealed.keepsBindings {x : Run σ α} (h : x.Sealed) : x.KeepsBindings := by
  intro s
  rw [h s]

theorem keepsBindings_pure (a : α) : (pure a : Run σ α).KeepsBindings := fun _ => rfl

/-- A pure computation that may fail keeps the variables. -/
theorem keepsBindings_lift (x : Except Fault α) : (Run.lift x : Run σ α).KeepsBindings :=
  (sealed_lift x).keepsBindings

/-- Writing values down keeps them. -/
theorem keepsBindings_record (values : List Value) :
    (Run.record values : Run σ Unit).KeepsBindings :=
  keepsBindings_lift _

/-- What keeps the variables does so after another computation. -/
theorem bindings_exec_bind {x : Run σ α} {f : α → Run σ β} (hf : ∀ a, (f a).KeepsBindings)
    (s : Scope σ) : ((x >>= f).exec s).2.bindings = (x.exec s).2.bindings := by
  rw [exec_bind]
  split
  · rename_i a s' hx
    rw [hf, hx]
  · rename_i e s' hx
    rw [hx]

/-- A computation in two parts keeps them if both parts do. -/
theorem KeepsBindings.bind {x : Run σ α} {f : α → Run σ β} (hx : x.KeepsBindings)
    (hf : ∀ a, (f a).KeepsBindings) : (x >>= f).KeepsBindings :=
  fun s => (bindings_exec_bind hf s).trans (hx s)

/-- Running a basic skill keeps them. -/
theorem keepsBindings_perform (kit : Toolkit σ) (skill : BasicSkill) (arguments : List Value) :
    (Run.perform kit skill arguments).KeepsBindings := by
  intro s
  rw [exec_perform]

/-- Reading a variable keeps them. -/
theorem keepsBindings_variable (name : String) :
    (Run.variable name : Run σ Value).KeepsBindings := by
  intro s
  rw [Run.variable, exec_bind_ok (exec_get s)]
  cases s.bindings.find? name <;> rfl

end Run

/-- **Calls keep the variables.**  Basic skills act on the world, and the plan of a composed skill
has variables of its own. -/
theorem Toolkit.callWithin_keepsBindings (kit : Toolkit σ) (depth : Nat) (c : Call) :
    (kit.callWithin depth c).KeepsBindings := by
  cases depth with
  | zero => exact (Run.sealed_fault _).keepsBindings
  | succ depth =>
      have hresolve : (c.arguments.mapM Argument.resolve : Run σ (List Value)).KeepsBindings := by
        intro s
        rw [exec_mapM_resolve_eq]
        exact Run.keepsBindings_lift _ s
      rw [Toolkit.callWithin]
      refine hresolve.bind fun arguments => ?_
      split
      · exact (Run.keepsBindings_lift _).bind fun v => Run.keepsBindings_pure _
      · split
        · exact (Run.keepsBindings_record _).bind fun _ =>
            (Run.keepsBindings_lift _).bind fun _ => Run.keepsBindings_perform _ _ _
        · exact (kit.runComposed_sealed depth _ arguments).keepsBindings
        · exact (Run.keepsBindings_record _).bind fun _ =>
            (Run.keepsBindings_lift _).bind fun _ => Run.keepsBindings_lift _
        · exact (Run.keepsBindings_lift _).bind fun _ =>
            (Run.keepsBindings_perform _ _ _).bind fun _ =>
              (Run.keepsBindings_record _).bind fun _ =>
                (Run.keepsBindings_perform _ _ _).bind fun _ => (Run.sealed_fault _).keepsBindings
        · exact (Run.sealed_fault _).keepsBindings

/-- The expression has no assignment in it. -/
def Expr.Assignless : Expr → Prop
  | .assign _ _ => False
  | .give e => e.Assignless
  | .binary _ left right => left.Assignless ∧ right.Assignless
  | .const _ | .ambiguous | .empty | .variable _ | .call _ | .literal _ => True

/-- An expression without assignments keeps the variables. -/
theorem Expr.Assignless.keepsBindings {call : Call → Run σ Result}
    (hcall : ∀ c, (call c).KeepsBindings) {e : Expr} (h : e.Assignless) :
    (e.eval call).KeepsBindings := by
  induction e with
  | const v => exact Run.keepsBindings_pure _
  | give e ih =>
      intro s
      rw [Expr.eval, Run.exec_bind_ok (Run.exec_setReturned true s)]
      exact (ih h).bind (fun _ => Run.keepsBindings_pure _) _
  | assign name e _ => exact h.elim
  | ambiguous => exact (Run.sealed_fault _).keepsBindings
  | binary op left right ihleft ihright =>
      exact (ihleft h.1).bind fun _ => (ihright h.2).bind fun _ =>
        (Run.keepsBindings_lift _).bind fun _ => Run.keepsBindings_pure _
  | empty => exact (Run.sealed_fault _).keepsBindings
  | «variable» name =>
      exact (Run.keepsBindings_variable name).bind fun _ => Run.keepsBindings_pure _
  | call c => exact hcall c
  | literal s => exact (Run.keepsBindings_lift _).bind fun _ => Run.keepsBindings_pure _

/-- An atom has no assignment in it. -/
theorem Expr.assignless_ofAtom (s : List Char) : (Expr.ofAtom s).Assignless := by
  unfold Expr.ofAtom
  repeat' split
  all_goals trivial

/-- **An expression without an equals sign does not assign.** -/
theorem Expr.assignless_ofText {s : List Char} (hequals : '=' ∉ s) :
    (Expr.ofText s).Assignless := by
  -- The pieces between the operators have no equals sign either.
  have hpieces {sep : Char} {t : List Char} (ht : '=' ∉ trim t)
      (h : ∀ p ∈ pieces sep (trim t), '=' ∉ p → (Expr.ofText p).Assignless) :
      ∀ e ∈ (pieces sep (trim t)).attach.map (fun x => Expr.ofText x.1), e.Assignless := by
    intro e he
    obtain ⟨⟨p, hp⟩, -, rfl⟩ := List.mem_map.1 he
    exact h p hp fun hmem => ht (mem_of_mem_pieces hp hmem)
  have hconst (n : Int) : (Expr.const (.int n)).Assignless := trivial
  have hbinary (op : Operator) (left right : Expr) :
      left.Assignless → right.Assignless → (Expr.binary op left right).Assignless := And.intro
  fun_induction Expr.ofText s with
  | case1 s t hr ih =>
      exact ih fun hmem => hequals (mem_of_mem_trim ((List.dropWhile_suffix _).subset hmem))
  | case2 s t hr he => exact absurd (mem_of_mem_trim he) hequals
  | case3 s t hr he => exact absurd (mem_of_mem_trim he) hequals
  | case4 s t _ he _ ih => exact Expr.chain_of_forall (hbinary .add) (hconst 0) (hpieces he ih)
  | case5 s t _ he _ _ ih =>
      exact Expr.chainFirst_of_forall trivial (hbinary .sub) (hpieces he ih)
  | case6 s t _ he _ _ _ ih => exact Expr.chain_of_forall (hbinary .mul) (hconst 1) (hpieces he ih)
  | case7 s t _ he _ _ _ _ ih =>
      exact Expr.chainFirst_of_forall trivial (hbinary .div) (hpieces he ih)
  | case8 s t => exact Expr.assignless_ofAtom _

/-! ### The assignments of a condition -/

/-- The assignment that an operand makes when it is evaluated from a scope: none if it is no
assignment, or if its value cannot be computed. -/
def Expr.assignments (call : Call → Run σ Result) (e : Expr) (s : Scope σ) :
    List (String × Value) :=
  match e, (e.eval call).exec s with
  | .assign name _, (.ok r, _) => [(name, r.value)]
  | _, _ => []

/-- The assignments that a condition makes when it is evaluated from a scope, in their order. -/
def Condition.assignments (call : Call → Run σ Result) :
    Condition → Scope σ → List (String × Value)
  | .both left right, s =>
    left.assignments call s ++
      match (left.eval call).exec s with
      | (.ok (.holds _), s₁) => right.assignments call s₁
      | _ => []
  | .either left right, s =>
    left.assignments call s ++
      match (left.eval call).exec s with
      | (.ok (.holds false), s₁) => right.assignments call s₁
      | _ => []
  | .compare left _ right, s =>
    left.assignments call s ++
      match (left.eval call).exec s with
      | (.ok a, s₁) => if a.replan then [] else right.assignments call s₁
      | _ => []
  | .malformed, _ => []

/-- The operands of the comparisons of a condition. -/
def Condition.operands : Condition → List Expr
  | .both left right | .either left right => left.operands ++ right.operands
  | .compare left _ right => [left, right]
  | .malformed => []

/-- What an expression does to the variables is what its own assignment says. -/
def Expr.Accounted (call : Call → Run σ Result) (e : Expr) : Prop :=
  ∀ s, ((e.eval call).exec s).2.bindings = s.bindings.insertAll (e.assignments call s)

section

variable {call : Call → Run σ Result}

/-- An assignment is accounted for if evaluating its right side keeps the variables. -/
theorem Expr.accounted_assign {name : String} {e : Expr} (h : (e.eval call).KeepsBindings) :
    (Expr.assign name e).Accounted call := by
  intro s
  have hkeeps := h s
  have hassign : (Expr.assign name e).eval call = (do
      let r ← e.eval call
      Run.assign name r.value
      pure r) := rfl
  cases he : (e.eval call).exec s with
  | mk r s₁ =>
      rw [he] at hkeeps
      cases r with
      | error f =>
          have hexec : ((Expr.assign name e).eval call).exec s = (.error f, s₁) := by
            rw [hassign, Run.exec_bind_error he]
          simp only [Expr.assignments, hexec]
          exact hkeeps
      | ok r =>
          have hexec : ((Expr.assign name e).eval call).exec s =
              (.ok r, { s₁ with bindings := s₁.bindings.insert name r.value }) := by
            rw [hassign, Run.exec_bind_ok he, Run.exec_bind_ok (Run.exec_assign name r.value s₁),
              Run.exec_pure]
          simp only [Expr.assignments, hexec]
          rw [show s₁.bindings = s.bindings from hkeeps]
          rfl

/-- Without assignments there is nothing to account for. -/
theorem Expr.Assignless.accounted (hcall : ∀ c, (call c).KeepsBindings) {e : Expr}
    (h : e.Assignless) : e.Accounted call := by
  intro s
  have hnone : e.assignments call s = [] := by
    cases e with
    | assign name e => exact h.elim
    | _ => rfl
  rw [hnone]
  exact h.keepsBindings hcall s

/-- Only an assignment assigns. -/
theorem Expr.exists_of_mem_assignments {e : Expr} {s : Scope σ} {p : String × Value}
    (h : p ∈ e.assignments call s) : ∃ e', e = .assign p.1 e' := by
  unfold Expr.assignments at h
  split at h
  · rename_i name e' r s₁ hexec
    rw [List.mem_singleton] at h
    exact ⟨e', by rw [h]⟩
  · cases h

/-- **What a condition does to the variables** is what its assignments say, whether it comes to a
truth value, asks for a new plan or halts. -/
theorem Condition.bindings_exec {c : Condition} (h : ∀ e ∈ c.operands, e.Accounted call)
    (s : Scope σ) :
    ((c.eval call).exec s).2.bindings = s.bindings.insertAll (c.assignments call s) := by
  induction c generalizing s with
  | both left right ihleft ihright =>
      obtain ⟨hleft, hright⟩ := List.forall_mem_append.1 h
      have hbindings := ihleft hleft s
      rw [Condition.eval, Run.exec_bind, Condition.assignments, Table.insertAll_append, ← hbindings]
      cases hexec : (left.eval call).exec s with
      | mk r s₁ =>
          rcases r with f | v
          · rfl
          · cases v with
            | replan r => rfl
            | holds a =>
                refine (Run.bindings_exec_bind (fun v => ?_) s₁).trans (ihright hright s₁)
                cases v <;> exact Run.keepsBindings_pure _
  | either left right ihleft ihright =>
      obtain ⟨hleft, hright⟩ := List.forall_mem_append.1 h
      have hbindings := ihleft hleft s
      rw [Condition.eval, Run.exec_bind, Condition.assignments, Table.insertAll_append, ← hbindings]
      cases hexec : (left.eval call).exec s with
      | mk r s₁ =>
          rcases r with f | v
          · rfl
          · cases v with
            | replan r => rfl
            | holds a =>
                cases a with
                | true => rfl
                | false => exact ihright hright s₁
  | compare left comparator right =>
      obtain ⟨hleft, hright⟩ : left.Accounted call ∧ right.Accounted call := by
        simpa [Condition.operands] using h
      have hbindings := hleft s
      rw [Condition.eval, Run.exec_bind, Condition.assignments, Table.insertAll_append, ← hbindings]
      cases hexec : (left.eval call).exec s with
      | mk r s₁ =>
          rcases r with f | a
          · rfl
          · simp only
            split
            · rfl
            · refine (Run.bindings_exec_bind (fun b => ?_) s₁).trans (hright s₁)
              split
              · exact Run.keepsBindings_pure _
              · exact (Run.keepsBindings_record _).bind fun _ =>
                  (Run.keepsBindings_lift _).bind fun _ => Run.keepsBindings_pure _
  | malformed => rfl

/-- Every assignment of a condition is one of its operands. -/
theorem Condition.exists_of_mem_assignments {c : Condition} {s : Scope σ} {p : String × Value}
    (h : p ∈ c.assignments call s) : ∃ e, .assign p.1 e ∈ c.operands := by
  induction c generalizing s with
  | both left right ihleft ihright | either left right ihleft ihright =>
      rw [Condition.assignments, List.mem_append] at h
      rcases h with h | h
      · obtain ⟨e, he⟩ := ihleft h
        exact ⟨e, List.mem_append_left _ he⟩
      · split at h
        · obtain ⟨e, he⟩ := ihright h
          exact ⟨e, List.mem_append_right _ he⟩
        · cases h
  | compare left comparator right =>
      rw [Condition.assignments, List.mem_append] at h
      rcases h with h | h
      · obtain ⟨e, he⟩ := Expr.exists_of_mem_assignments h
        exact ⟨e, by simp [Condition.operands, he]⟩
      · split at h
        · split at h
          · cases h
          · obtain ⟨e, he⟩ := Expr.exists_of_mem_assignments h
            exact ⟨e, by simp [Condition.operands, he]⟩
        · cases h
  | malformed => cases h

end

/-! ### Conditions as texts -/

/-- The texts of the operands of a comparison. -/
def comparisonOperands (s : List Char) : List (List Char) :=
  match cutComparator? s with
  | none => []
  | some (left, _, right) => if (cutComparator? right).isSome then [] else [left, right]

/-- The texts of the operands of a condition. -/
def operandTexts (text : List Char) : List (List Char) :=
  (pieces '&' text).flatMap fun group => (pieces '|' group).flatMap comparisonOperands

/-- A conjunction has the operands of its parts. -/
theorem Condition.operands_all {conditions : List Condition} :
    (Condition.all conditions).operands = conditions.flatMap Condition.operands := by
  have hfoldl (rest : List Condition) (first : Condition) :
      (rest.foldl .both first).operands = first.operands ++ rest.flatMap Condition.operands := by
    induction rest generalizing first with
    | nil => simp
    | cons next rest ih =>
        rw [List.foldl_cons, ih, List.flatMap_cons, ← List.append_assoc]
        rfl
  cases conditions with
  | nil => rfl
  | cons first rest => exact hfoldl rest first

/-- So has a disjunction. -/
theorem Condition.operands_any {conditions : List Condition} :
    (Condition.any conditions).operands = conditions.flatMap Condition.operands := by
  fun_induction Condition.any conditions with
  | case1 => rfl
  | case2 last => simp
  | case3 first rest _ ih => rw [Condition.operands, ih, List.flatMap_cons]

/-- The operands of a comparison are read from the texts on its two sides. -/
theorem Condition.operands_ofComparison (s : List Char) :
    (Condition.ofComparison s).operands = (comparisonOperands s).map Expr.ofText := by
  unfold Condition.ofComparison comparisonOperands
  cases cutComparator? s with
  | none => rfl
  | some parts =>
      obtain ⟨left, op, right⟩ := parts
      simp only
      split <;> rfl

/-- The operands of a condition are the expressions of the texts of its operands. -/
theorem Condition.operands_ofText (text : List Char) :
    (Condition.ofText text).operands = (operandTexts text).map Expr.ofText := by
  have hgroup (group : List Char) : (Condition.ofGroup group).operands =
      ((pieces '|' group).flatMap comparisonOperands).map Expr.ofText := by
    rw [Condition.ofGroup, Condition.operands_any, List.flatMap_map, List.map_flatMap]
    simp only [Condition.operands_ofComparison]
  rw [Condition.ofText, Condition.operands_all, List.flatMap_map, operandTexts, List.map_flatMap]
  simp only [hgroup]

/-- A text in which no comparator is found has no sign that compares. -/
theorem not_mem_of_cutComparator?_none {s : List Char} (h : cutComparator? s = none) : '>' ∉ s := by
  fun_induction cutComparator? s with
  | case1 => exact List.not_mem_nil
  | case2 cs => cases h
  | case3 cs => cases h
  | case4 cs => cases h
  | case5 cs => cases h
  | case6 c cs hgreater _ _ _ ih =>
      rw [List.mem_cons, not_or]
      exact ⟨fun heq => hgreater heq.symm, ih (Option.map_eq_none_iff.1 h)⟩

/-- A text is cut at its first comparator, so no angle bracket is left of it. -/
theorem not_mem_left_of_cutComparator? {s left right : List Char} {op : Comparator}
    (h : cutComparator? s = some (left, op, right)) : '>' ∉ left := by
  fun_induction cutComparator? s generalizing left right op with
  | case1 => cases h
  | case2 cs => cases h; exact List.not_mem_nil
  | case3 cs => cases h; exact List.not_mem_nil
  | case4 cs => cases h; exact List.not_mem_nil
  | case5 cs => cases h; exact List.not_mem_nil
  | case6 c cs hgreater _ _ _ ih =>
      obtain ⟨⟨before, op', after⟩, hcut, hparts⟩ := Option.map_eq_some_iff.1 h
      cases hparts
      rw [List.mem_cons, not_or]
      exact ⟨fun heq => hgreater heq.symm, ih hcut⟩

/-- No operand of a condition is a return. -/
theorem not_mem_of_mem_operandTexts {text operand : List Char} (h : operand ∈ operandTexts text) :
    '>' ∉ operand := by
  obtain ⟨group, -, hgroup⟩ := List.mem_flatMap.1 h
  obtain ⟨comparison, -, hoperand⟩ := List.mem_flatMap.1 hgroup
  unfold comparisonOperands at hoperand
  split at hoperand
  · cases hoperand
  · rename_i left op right hcut
    split at hoperand
    · cases hoperand
    · rename_i hright
      have hnone : cutComparator? right = none := by simpa using hright
      rcases List.mem_cons.1 hoperand with rfl | hoperand
      · exact not_mem_left_of_cutComparator? hcut
      · rw [List.mem_singleton.1 hoperand]
        exact not_mem_of_cutComparator?_none hnone

/-- What stands before the only equals sign of the text is the name. -/
def Names (operand : List Char) (name : String) : Prop :=
  ∃ value, trim operand = name.toList ++ '=' :: value ∧ '=' ∉ name.toList ∧ '=' ∉ value

/-- A text that is no return assigns what an expression without an equals sign comes to, or does not
assign at all. -/
theorem Expr.ofText_assign_or_assignless {s : List Char} (h : '>' ∉ s) :
    (∃ name e, Names s name ∧ e.Assignless ∧ Expr.ofText s = .assign name e) ∨
      (Expr.ofText s).Assignless := by
  by_cases hequals : '=' ∈ trim s
  · rw [Expr.ofText]
    simp only
    rw [dif_neg (not_isReturn_of_not_mem h), dif_pos hequals]
    split
    · rename_i name e hpieces
      have hname : '=' ∉ name := not_mem_of_mem_pieces (by rw [hpieces]; simp)
      have he : '=' ∉ e := not_mem_of_mem_pieces (by rw [hpieces]; simp)
      have hglue : trim s = name ++ '=' :: e := by
        rw [← glue_pieces '=' (trim s), hpieces]
        rfl
      have hnames : Names s (String.ofList name) :=
        ⟨e, by simpa using hglue, by simpa using hname, he⟩
      exact Or.inl ⟨_, _, hnames, Expr.assignless_ofText he, rfl⟩
    · exact Or.inr trivial
  · have hnone : '=' ∉ s := mt (mem_trim_iff rfl).2 hequals
    exact Or.inr (Expr.assignless_ofText hnone)

/-- **The variables after a condition.**  They are those before it with the assignments of the
operands that were evaluated, in their order, whether the condition comes to a truth value, asks for
a new plan or halts.  What is assigned is what stands before the equals sign of an operand.  So the
variables stay as they were if and only if each variable assigned ends with the value that it had;
in particular they do if no operand has an equals sign in it. -/
theorem condition_assigns_operands (kit : Toolkit σ) (text : List Char) (s : Scope σ) :
    let made := (Condition.ofText text).assignments kit.call s
    let after := (((Condition.ofText text).eval kit.call).exec s).2.bindings
    after = s.bindings.insertAll made ∧
    (∀ p ∈ made, ∃ operand ∈ operandTexts text, Names operand p.1) ∧
    (after = s.bindings ↔
      ∀ name v, (Table.ofList made).find? name = some v → s.bindings.find? name = some v) ∧
    ((∀ operand ∈ operandTexts text, '=' ∉ operand) → after = s.bindings) := by
  intro made after
  have hcall : ∀ c, (kit.call c).KeepsBindings := kit.callWithin_keepsBindings maxCallDepth
  have haccounted : ∀ e ∈ (Condition.ofText text).operands, e.Accounted kit.call := by
    intro e he
    rw [Condition.operands_ofText] at he
    obtain ⟨operand, hoperand, rfl⟩ := List.mem_map.1 he
    rcases Expr.ofText_assign_or_assignless (not_mem_of_mem_operandTexts hoperand) with
      ⟨name, e, -, he, hassign⟩ | hassignless
    · rw [hassign]
      exact Expr.accounted_assign (he.keepsBindings hcall)
    · exact hassignless.accounted hcall
  have hafter : after = s.bindings.insertAll made := Condition.bindings_exec haccounted s
  have hnames : ∀ p ∈ made, ∃ operand ∈ operandTexts text, Names operand p.1 := by
    intro p hp
    obtain ⟨e, he⟩ := Condition.exists_of_mem_assignments hp
    rw [Condition.operands_ofText] at he
    obtain ⟨operand, hoperand, heq⟩ := List.mem_map.1 he
    refine ⟨operand, hoperand, ?_⟩
    rcases Expr.ofText_assign_or_assignless (not_mem_of_mem_operandTexts hoperand) with
      ⟨name, e', hname, -, hassign⟩ | hassignless
    · rw [heq] at hassign
      cases hassign
      exact hname
    · rw [heq] at hassignless
      exact hassignless.elim
  refine ⟨hafter, hnames, ?_, ?_⟩
  · rw [hafter]
    exact Table.insertAll_eq_self_iff
  · intro hequals
    have hmade : made = [] := by
      apply List.eq_nil_iff_forall_not_mem.2
      intro p hp
      obtain ⟨operand, hoperand, value, htrim, -⟩ := hnames p hp
      exact hequals operand hoperand (mem_of_mem_trim (by simp [htrim]))
    rw [hafter, hmade]
    rfl

/-- Asking whether a variable is at least 3 gives the variable without a name the value 3. -/
theorem greaterEqual_assigns :
    let s : Scope Nat := { world := 0, bindings := .ofList [("_1", .int 5)] }
    let after : Scope Nat := { s with bindings := .ofList [("_1", .int 5), ("", .int 3)] }
    ((Condition.ofText "_1>=3".toList).eval counter.call).exec s = (.ok (.holds true), after) ∧
      after.bindings ≠ s.bindings := by
  intro s after
  have hleft : Expr.ofText "_1".toList = .variable "_1" := by
    rw [Expr.ofText]
    rfl
  have hthree : Expr.ofText "3".toList = .literal "3".toList := by
    rw [Expr.ofText]
    rfl
  have hright : Expr.ofText "=3".toList = .assign "" (.literal "3".toList) := by
    rw [← hthree, Expr.ofText]
    rfl
  have hcondition : Condition.ofText "_1>=3".toList =
      .compare (.variable "_1") .greater (.assign "" (.literal "3".toList)) := by
    rw [← hleft, ← hright]
    rfl
  refine ⟨?_, fun heq => ?_⟩
  · rw [hcondition]
    rfl
  · have hkeys := congrArg Table.keys heq
    exact absurd hkeys (by decide)

end DronePilot.Plan
