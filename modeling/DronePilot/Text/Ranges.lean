/-!
# Sets of characters given by ranges

A character property that a standard lays down as a table is held as a list of closed ranges of
code points.  Membership is one scan of the list.
-/

namespace DronePilot.Text

/-- A set of characters, written as closed ranges of code points. -/
abbrev Ranges := List (Nat × Nat)

/-- A character belongs to the set when its code point lies in one of the ranges. -/
def Ranges.contains (ranges : Ranges) (c : Char) : Bool :=
  ranges.any fun range => range.1 ≤ c.toNat && c.toNat ≤ range.2

theorem Ranges.contains_iff {ranges : Ranges} {c : Char} :
    ranges.contains c = true ↔ ∃ range ∈ ranges, range.1 ≤ c.toNat ∧ c.toNat ≤ range.2 := by
  simp [Ranges.contains]

end DronePilot.Text
