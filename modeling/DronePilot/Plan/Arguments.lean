import DronePilot.Text.Blank
import DronePilot.Text.Cut

/-!
# Argument lists

The text between the brackets of a call is cut at the commas that stand outside inner brackets.  A
text that begins and ends with a single quotation mark is one argument, commas and all.
-/

namespace DronePilot.Plan

open DronePilot.Text

/-- The bracket depth after a character.  Closing brackets too many make it negative. -/
def bracketDepth (depth : Int) (c : Char) : Int :=
  if c = '(' then depth + 1 else if c = ')' then depth - 1 else depth

/-- Cuts the rest of an argument list, given the bracket depth and the argument read so far. -/
def splitArgumentsFrom (depth : Int) (argument : List Char) : List Char → List (List Char)
  | [] => if argument.isEmpty then [] else [trim argument]
  | c :: cs =>
    if c = ',' && depth = 0 then trim argument :: splitArgumentsFrom depth [] cs
    else splitArgumentsFrom (bracketDepth depth c) (argument ++ [c]) cs

/-- Whether a text begins and ends with a single quotation mark. -/
def isSingleQuoted (s : List Char) : Bool :=
  s.head? = some '\'' && s.getLast? = some '\''

/-- The arguments of a call.  An empty last argument is dropped. -/
def splitArguments (s : List Char) : List (List Char) :=
  if isSingleQuoted s then [s] else splitArgumentsFrom 0 [] s

end DronePilot.Plan
