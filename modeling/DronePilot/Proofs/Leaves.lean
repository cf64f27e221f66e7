import DronePilot.Plan.Evaluator
import DronePilot.Proofs.Plainness

/-!
# The leaves of an expression

The analysis of a text cuts it at the equals sign and at the signs of arithmetic, and what is left
at the leaves are pieces of the text: the arguments of calls, without blanks and quotation marks
around them, and literals.  So no character comes to a leaf that was not in the text
(`mem_of_mem_argument`), and no equals sign comes to a leaf at all (`Expr.equalsFree_ofText`,
`Condition.equalsFree_ofText`), since the text is cut there or has none.
-/

namespace DronePilot

/-- A text value has no equals sign in it. -/
def Value.EqualsFree (v : Value) : Prop :=
  ∀ s, v = .text s → '=' ∉ s.toList

theorem Value.equalsFree_of_not_text {v : Value} (h : ∀ s, v ≠ .text s) : v.EqualsFree := by
  intro s hv
  exact absurd hv (h s)

namespace Plan

open DronePilot.Text

/-! ### Characters of arguments -/

theorem mem_of_mem_trimWhere {p : Char → Bool} {s : List Char} {c : Char} (h : c ∈ trimWhere p s) :
    c ∈ s := by
  have hreversed : c ∈ (s.dropWhile p).reverse :=
    (List.dropWhile_suffix p).subset (List.mem_reverse.1 h)
  exact (List.dropWhile_suffix p).subset (List.mem_reverse.1 hreversed)

/-- A text is cut in front of the first separator and behind it. -/
theorem eq_append_of_cutAt? {sep : Char} {s before after : List Char}
    (h : cutAt? sep s = some (before, after)) : s = before ++ sep :: after := by
  induction s generalizing before with
  | nil => cases h
  | cons c s ih =>
      rw [cutAt?] at h
      split at h
      · rename_i hc
        cases h
        rw [hc, List.nil_append]
      · obtain ⟨⟨before', after'⟩, hcut, hparts⟩ := Option.map_eq_some_iff.1 h
        cases hparts
        rw [ih hcut, List.cons_append]

theorem mem_of_mem_splitArgumentsFrom {depth : Int} {argument s piece : List Char}
    (h : piece ∈ splitArgumentsFrom depth argument s) {c : Char} (hc : c ∈ piece) :
    c ∈ argument ∨ c ∈ s := by
  fun_induction splitArgumentsFrom depth argument s with
  | case1 => cases h
  | case2 argument _ _ =>
      rw [List.mem_singleton.1 h] at hc
      exact Or.inl (mem_of_mem_trim hc)
  | case3 depth argument d s _ ih =>
      rcases List.mem_cons.1 h with heq | h
      · rw [heq] at hc
        exact Or.inl (mem_of_mem_trim hc)
      · rcases ih h with hnone | hmem
        · cases hnone
        · exact Or.inr (List.mem_cons_of_mem _ hmem)
  | case4 depth argument d s _ ih =>
      rcases ih h with hmem | hmem
      · rcases List.mem_append.1 hmem with hmem | hmem
        · exact Or.inl hmem
        · exact Or.inr (List.mem_singleton.1 hmem ▸ List.mem_cons_self)
      · exact Or.inr (List.mem_cons_of_mem _ hmem)

theorem mem_of_mem_splitArguments {s piece : List Char} (h : piece ∈ splitArguments s) {c : Char}
    (hc : c ∈ piece) : c ∈ s := by
  unfold splitArguments at h
  split at h
  · rw [List.mem_singleton.1 h] at hc
    exact hc
  · rcases mem_of_mem_splitArgumentsFrom h hc with hnone | hmem
    · cases hnone
    · exact hmem

/-- A text argument is a part of the text it was read from. -/
theorem mem_of_argument_ofText {s : List Char} {t : String} (h : Argument.ofText s = .text t)
    {c : Char} (hc : c ∈ t.toList) : c ∈ s := by
  unfold Argument.ofText at h
  simp only at h
  split at h
  · cases h
  · cases h
    rw [String.toList_ofList] at hc
    exact mem_of_mem_trim (mem_of_mem_trimWhere hc)

/-- **The characters of the arguments of a call are characters of its text**, behind the first
bracket. -/
theorem mem_of_mem_argument {s : List Char} {t : String} (h : .text t ∈ (Call.ofText s).arguments)
    {c : Char} (hc : c ∈ t.toList) : ∃ name rest, s = name ++ '(' :: rest ∧ c ∈ rest := by
  unfold Call.ofText at h
  split at h
  · cases h
  · rename_i name rest hcut
    obtain ⟨piece, hpiece, hargument⟩ := List.mem_map.1 h
    have hmem := mem_of_mem_splitArguments hpiece (mem_of_argument_ofText hargument hc)
    exact ⟨name, rest, eq_append_of_cutAt? hcut,
      mem_of_mem_trim ((List.dropLast_sublist _).subset hmem)⟩

/-! ### Equals signs -/

/-- No equals sign stands at a leaf. -/
def Expr.EqualsFree : Expr → Prop
  | .const v => v.EqualsFree
  | .give e | .assign _ e => e.EqualsFree
  | .binary _ left right => left.EqualsFree ∧ right.EqualsFree
  | .call c => ∀ t, .text t ∈ c.arguments → '=' ∉ t.toList
  | .literal s => '=' ∉ s
  | .ambiguous | .empty | .variable _ => True

/-- No equals sign stands at a leaf of an operand. -/
def Condition.EqualsFree : Condition → Prop
  | .both left right | .either left right => left.EqualsFree ∧ right.EqualsFree
  | .compare left _ right => left.EqualsFree ∧ right.EqualsFree
  | .malformed => True

theorem Expr.equalsFree_ofAtom {s : List Char} (h : '=' ∉ s) : (Expr.ofAtom s).EqualsFree := by
  unfold Expr.ofAtom
  split
  · trivial
  · split
    · trivial
    · split
      · exact h
      · split
        · intro t ht hmem
          obtain ⟨name, rest, hs, hrest⟩ := mem_of_mem_argument ht hmem
          rw [hs] at h
          simp [hrest] at h
        · exact h

/-- **No equals sign comes to a leaf.** -/
theorem Expr.equalsFree_ofText (s : List Char) : (Expr.ofText s).EqualsFree := by
  have hconst (n : Int) : (Expr.const (.int n)).EqualsFree :=
    Value.equalsFree_of_not_text (by simp)
  have hpieces {parts : List (List Char)} (h : ∀ p ∈ parts, (Expr.ofText p).EqualsFree) :
      ∀ e ∈ parts.attach.map (fun x => Expr.ofText x.1), e.EqualsFree := by
    intro e he
    obtain ⟨⟨p, hp⟩, -, rfl⟩ := List.mem_map.1 he
    exact h p hp
  have hbinary (op : Operator) (left right : Expr) :
      left.EqualsFree → right.EqualsFree → (Expr.binary op left right).EqualsFree := And.intro
  fun_induction Expr.ofText s with
  | case1 s t hr ih => exact ih
  | case2 s t hr he name e hp ih => exact ih
  | case3 => trivial
  | case4 s t _ _ _ ih => exact Expr.chain_of_forall (hbinary .add) (hconst 0) (hpieces ih)
  | case5 s t _ _ _ _ ih => exact Expr.chainFirst_of_forall trivial (hbinary .sub) (hpieces ih)
  | case6 s t _ _ _ _ _ ih => exact Expr.chain_of_forall (hbinary .mul) (hconst 1) (hpieces ih)
  | case7 s t _ _ _ _ _ _ ih =>
      exact Expr.chainFirst_of_forall trivial (hbinary .div) (hpieces ih)
  | case8 s t _ he => exact Expr.equalsFree_ofAtom he

theorem Condition.equalsFree_ofText (s : List Char) : (Condition.ofText s).EqualsFree := by
  refine Condition.all_of_forall trivial (fun _ _ => And.intro)
    (List.forall_mem_map.2 fun group _ => ?_)
  refine Condition.any_of_forall trivial (fun _ _ => And.intro)
    (List.forall_mem_map.2 fun part _ => ?_)
  unfold Condition.ofComparison
  split
  · trivial
  · split
    · trivial
    · exact ⟨Expr.equalsFree_ofText _, Expr.equalsFree_ofText _⟩

/-! ### Values -/

/-- A literal without an equals sign stands for a value without one. -/
theorem equalsFree_of_literal {s : List Char} (hs : '=' ∉ s) {v : Value}
    (h : literal s = .ok v) : v.EqualsFree := by
  have hmap {α : Type} {x : Except Fault α} {f : α → Value} (hf : ∀ a t, f a ≠ .text t)
      (h : f <$> x = .ok v) : v.EqualsFree := by
    cases x with
    | error e => cases h
    | ok a =>
        cases h
        exact Value.equalsFree_of_not_text (hf a)
  unfold literal at h
  split at h
  · exact hmap (by simp) h
  · split at h
    · exact hmap (by simp) h
    · split at h
      · cases h
        exact Value.equalsFree_of_not_text (by simp)
      · split at h
        · cases h
          exact Value.equalsFree_of_not_text (by simp)
        · split at h
          · cases h
            exact Value.equalsFree_of_not_text (by simp)
          · cases h
            intro t ht hmem
            cases ht
            rw [String.toList_ofList] at hmem
            exact hs (mem_of_mem_trimWhere hmem)

end Plan

end DronePilot
