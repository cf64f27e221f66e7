import DronePilot.Fault
import DronePilot.Table
import DronePilot.Text.Cut

/-!
# Abbreviations

Every skill has a short name of one or two characters.  It is made of the initials of the first two
parts of the skill's name; if that is taken, of the first character and the first later character
of the name that gives a short name not yet taken.  Short names are never given back.
-/

namespace DronePilot.Skill

open DronePilot.Text

/-- The skill names by short name. -/
abbrev Abbreviations := Table String String

/-- The initials of the first two parts of a name; no part may be empty. -/
def initials? (name : List Char) : Option (List Char) :=
  ((pieces '_' name).mapM List.head?).map (List.take 2)

/-- The short names to fall back on: the first character with each later one, low lines left
out. -/
def fallbacks (name : List Char) : List (List Char) :=
  match name.filter (· ≠ '_') with
  | [] => []
  | first :: rest => rest.map fun c => [first, c]

/-- The short name for a skill, given those that are taken. -/
def abbreviate (taken : Abbreviations) (name : String) : Except Fault String :=
  match initials? name.toList with
  | none => .error .noSuchPosition
  | some short =>
    match (short :: fallbacks name.toList).find? fun s => !taken.contains (String.ofList s) with
    | some s => .ok (String.ofList s)
    | none => .error .noSuchPosition

end DronePilot.Skill
