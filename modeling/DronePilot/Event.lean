import DronePilot.Document

/-!
# Events and scripts

What the system does to the world outside it is recorded as events.  What comes back from there is
given by scripts: lists of answers that are used in order and start again at their end.
-/

namespace DronePilot

/-- Something that was done, with its particulars. -/
structure Event where
  name : String
  details : List Document := []
deriving Repr, Inhabited

/-- Waiting is an event, too. -/
def Event.sleep (seconds : Value) : Event :=
  { name := "sleep", details := [.value seconds] }

/-- Answers that are used in order, over and over. -/
structure Script (α : Type) where
  answers : List α
  used : Nat := 0

/-- The answer due next, or the default if there are none. -/
def Script.current {α : Type} (s : Script α) (default : α) : α :=
  (s.answers[s.used % s.answers.length]?).getD default

/-- The script after one answer was used. -/
def Script.advance {α : Type} (s : Script α) : Script α :=
  { s with used := s.used + 1 }

end DronePilot
