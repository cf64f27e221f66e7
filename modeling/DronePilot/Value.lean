import DronePilot.Decimal.Layout
import DronePilot.Decimal.Numeral

/-!
# Values of plans

What a plan computes with: nothing, truth values, whole numbers of any size, doubles and text.  The
kinds are kept apart: a whole number is never the same value as the double it equals.
-/

namespace DronePilot

/-- A value that a variable, an argument or the result of a skill can have. -/
inductive Value where
  | nothing
  | bool (b : Bool)
  | int (n : Int)
  | float (x : Float)
  | text (s : String)
deriving Repr, Inhabited, BEq

/-- The kinds of values. -/
inductive Kind where
  | nothing
  | bool
  | int
  | float
  | text
deriving Repr, DecidableEq

namespace Value

/-- The kind of a value. -/
def kind : Value → Kind
  | nothing => .nothing
  | bool _ => .bool
  | int _ => .int
  | float _ => .float
  | text _ => .text

/-- The spelling of truth values. -/
def showBool (b : Bool) : String :=
  if b then "True" else "False"

/-- A value as a person reads it: text stands without quotation marks. -/
def display : Value → String
  | nothing => "None"
  | bool b => showBool b
  | int n => toString n
  | float x => Decimal.plain.write x
  | text s => s

/-- Whether a value can be written: a whole number can have too many digits for that. -/
def isWritable : Value → Bool
  | int n => Decimal.fitsDigits Decimal.maxDigits n.natAbs
  | _ => true

/-- A value is true unless it is nothing, false, a zero or the empty text. -/
def truthy : Value → Bool
  | nothing => false
  | bool b => b
  | int n => n != 0
  | float x => x != 0
  | text s => s != ""

end Value

/-- The name of a kind in messages. -/
def Kind.name : Kind → String
  | nothing => "NoneType"
  | bool => "bool"
  | int => "int"
  | float => "float"
  | text => "str"

end DronePilot
