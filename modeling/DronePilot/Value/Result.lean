import DronePilot.Value

/-!
# Results

What a skill or a plan gives back: a value, and whether the plan under way should be given up for a
new one.
-/

namespace DronePilot

/-- A value, and the wish to replan. -/
structure Result where
  value : Value
  replan : Bool
deriving Repr, Inhabited, BEq

/-- The result of a plan without statements. -/
def Result.none : Result := { value := .nothing, replan := false }

/-- A value with no wish to replan. -/
def Result.ofValue (v : Value) : Result := { value := v, replan := false }

/-- A result as the log shows it. -/
def Result.display (r : Result) : String :=
  "value=" ++ r.value.display ++ ", replan=" ++ Value.showBool r.replan

end DronePilot
