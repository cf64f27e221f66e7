import DronePilot.Decimal.Numeral
import DronePilot.Fault
import DronePilot.Text.Cut

/-!
# Literals

What a plain piece of text in a plan stands for: a whole number, a double, a truth value, nothing,
or the text itself without the quotation marks around it.
-/

namespace DronePilot.Plan

open DronePilot.Text DronePilot.Decimal

/-- Text that consists of digit signs and is not empty. -/
def isDigitText (s : List Char) : Bool :=
  !s.isEmpty && s.all isDigitSign

/-- Reads a whole number and forgets why it cannot be read. -/
def wholeLiteral (s : List Char) : Except Fault Int :=
  match readWhole s with
  | .ok n => .ok n
  | .error _ => .error .unreadableNumber

/-- Reads a double, or fails as an unreadable number. -/
def realLiteral (s : List Char) : Except Fault Float :=
  match readReal s with
  | some x => .ok x
  | none => .error .unreadableNumber

/-- The value that a literal stands for.  Digits outside place-value notation are taken for a
number and then cannot be read. -/
def literal (s : List Char) : Except Fault Value :=
  if isDigitText s then Value.int <$> wholeLiteral s
  else if isDigitText (dropFirst '.' s) then Value.float <$> realLiteral s
  else if s = "True".toList then .ok (.bool true)
  else if s = "False".toList then .ok (.bool false)
  else if s = "None".toList || s.isEmpty then .ok .nothing
  else .ok (.text (String.ofList (trimWhere isQuoteMark s)))

end DronePilot.Plan
