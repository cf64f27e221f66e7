import DronePilot.Plan.Expression

/-!
# Conditions

A condition is a conjunction of disjunctions of comparisons: the text is split at every ampersand,
each part at every bar, and what is left must hold exactly one comparator.
-/

namespace DronePilot.Plan

open DronePilot.Text

/-- A condition. -/
inductive Condition where
  | both (left right : Condition)
  | either (left right : Condition)
  | compare (left : Expr) (comparator : Comparator) (right : Expr)
  /-- No comparator, or more than one. -/
  | malformed

/-- The first comparator in a text, with the text before it and the text after it. -/
def cutComparator? : List Char → Option (List Char × Comparator × List Char)
  | [] => none
  | '>' :: cs => some ([], .greater, cs)
  | '<' :: cs => some ([], .less, cs)
  | '=' :: '=' :: cs => some ([], .equal, cs)
  | '!' :: '=' :: cs => some ([], .unequal, cs)
  | c :: cs => (cutComparator? cs).map fun (before, op, after) => (c :: before, op, after)

/-- A comparison. -/
def Condition.ofComparison (s : List Char) : Condition :=
  match cutComparator? s with
  | none => .malformed
  | some (left, op, right) =>
    if (cutComparator? right).isSome then .malformed
    else .compare (Expr.ofText left) op (Expr.ofText right)

/-- Joins conditions to the left; the list is not empty. -/
def Condition.all : List Condition → Condition
  | [] => .malformed
  | first :: rest => rest.foldl .both first

/-- Joins conditions to the right; the list is not empty. -/
def Condition.any : List Condition → Condition
  | [] => .malformed
  | [last] => last
  | first :: rest => .either first (.any rest)

/-- A disjunction of comparisons. -/
def Condition.ofGroup (s : List Char) : Condition :=
  .any ((pieces '|' s).map Condition.ofComparison)

/-- The condition that a text stands for. -/
def Condition.ofText (s : List Char) : Condition :=
  .all ((pieces '&' s).map Condition.ofGroup)

end DronePilot.Plan
