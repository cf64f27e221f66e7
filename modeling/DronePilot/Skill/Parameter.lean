/-!
# Parameters of skills

A skill declares its parameters with a name and the kind of value that it expects.
-/

namespace DronePilot

/-- The kinds of values that a parameter can ask for. -/
inductive ParameterKind where
  | int
  | float
  | text
  | bool
deriving Repr, DecidableEq

/-- The name of a parameter's kind. -/
def ParameterKind.name : ParameterKind → String
  | int => "int"
  | float => "float"
  | text => "str"
  | bool => "bool"

/-- The kind with a name; any other name stands for text. -/
def ParameterKind.ofName (name : String) : ParameterKind :=
  ([int, float, bool].find? fun kind => kind.name == name).getD text

/-- A declared parameter. -/
structure Parameter where
  name : String
  kind : ParameterKind
deriving Repr, DecidableEq

/-- A parameter as skill listings show it. -/
def Parameter.display (p : Parameter) : String :=
  p.name ++ ":" ++ p.kind.name

/-- A list of parameters as skill listings show it. -/
def displayParameters (ps : List Parameter) : String :=
  "[" ++ String.intercalate ", " (ps.map Parameter.display) ++ "]"

end DronePilot
