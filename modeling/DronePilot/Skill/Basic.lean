import DronePilot.Decimal.Numeral
import DronePilot.Fault
import DronePilot.Skill.Parameter
import DronePilot.Text.Blank
import DronePilot.Text.Cut

/-!
# Skills

A *basic* skill is bound to something that the robot or the pilot can do; its arguments are read
according to its parameters before it is run.  A *composed* skill is a plan with placeholders `$1`,
`$2` and so on; its arguments are pasted into the plan as text.
-/

namespace DronePilot

open DronePilot.Text

/-- What a basic skill is bound to: an operation, or a value that cannot be run. -/
inductive Binding where
  | operation
  | value (v : Value)
deriving Repr

/-- A skill that the robot or the pilot has. -/
structure BasicSkill where
  name : String
  abbreviation : String
  description : String := ""
  parameters : List Parameter := []
  binding : Binding := .operation
deriving Repr

/-- A skill that is a plan. -/
structure ComposedSkill where
  name : String
  abbreviation : String
  definition : String
  description : String := ""
  parameters : List Parameter := []
  /-- The skill has been placed above a set of basic skills. -/
  placed : Bool := false
deriving Repr

/-- A skill of either sort. -/
inductive Skill where
  | basic (s : BasicSkill)
  | composed (s : ComposedSkill)
deriving Repr

namespace Skill

def name : Skill → String
  | basic s => s.name
  | composed s => s.name

def abbreviation : Skill → String
  | basic s => s.abbreviation
  | composed s => s.abbreviation

def description : Skill → String
  | basic s => s.description
  | composed s => s.description

def parameters : Skill → List Parameter
  | basic s => s.parameters
  | composed s => s.parameters

/-- A skill as listings show it. -/
def display : Skill → String
  | basic s =>
    "abbr:" ++ s.abbreviation ++ ",name:" ++ s.name ++ ",args:" ++ displayParameters s.parameters ++
      ",description:" ++ s.description
  | composed s =>
    "abbr:" ++ s.abbreviation ++ ",name:" ++ s.name ++ ",definition:" ++ s.definition ++ ",args:" ++
      displayParameters s.parameters ++ ",description:" ++ s.description

end Skill

/-- Reads the trimmed text of an argument as a value of the kind asked for. -/
def ParameterKind.read (kind : ParameterKind) (s : List Char) : Except ReadError Value :=
  match kind with
  | .int =>
    match Decimal.readWhole s with
    | .ok n => .ok (.int n)
    | .error .notANumeral => .error .notWhole
    | .error (.tooManyDigits count) => .error (.tooManyDigits count)
  | .float =>
    match Decimal.readReal s with
    | some x => .ok (.float x)
    | none => .error .notReal
  | .text => .ok (.text (String.ofList s))
  | .bool => .ok (.bool (s.map Char.toLower == "true".toList))

/-- Whether an argument is a placeholder. -/
def isPlaceholder (s : List Char) : Bool :=
  s.head? = some '$'

/-- One argument for a parameter, counted from one.  Only text is read; other values are taken as
they are, and so are placeholders where they are allowed. -/
def Parameter.readArgument (placeholders : Bool) (position : Nat) (p : Parameter) :
    Value → Except Fault Value
  | .text s =>
    if placeholders && isPlaceholder s.toList then .ok (.text s)
    else
      let bare := trim s.toList
      match p.kind.read bare with
      | .ok v => .ok v
      | .error cause =>
        .error (.unreadableArgument position p.kind (String.ofList bare) cause)
  | v => .ok v

/-- Arguments for parameters, the first of them at the given position. -/
def readArgumentsFrom (placeholders : Bool) (position : Nat) :
    List Parameter → List Value → Except Fault (List Value)
  | p :: ps, v :: vs => do
    let first ← p.readArgument placeholders position v
    let rest ← readArgumentsFrom placeholders (position + 1) ps vs
    pure (first :: rest)
  | _, _ => .ok []

/-- Arguments for parameters; there have to be as many of the one as of the other.  The flag allows
placeholders. -/
def readArguments (placeholders : Bool) (parameters : List Parameter) (arguments : List Value) :
    Except Fault (List Value) :=
  if arguments.length ≠ parameters.length then
    .error (.wrongArity parameters.length arguments.length)
  else readArgumentsFrom placeholders 1 parameters arguments

/-- The arguments with which a basic skill is run. -/
def BasicSkill.arguments (s : BasicSkill) (arguments : List Value) : Except Fault (List Value) :=
  match s.binding with
  | .operation => readArguments false s.parameters arguments
  | .value v => do
    let shown ← v.written
    throw (.notRunnable shown)

/-- The `n`-th placeholder. -/
def placeholder (n : Nat) : List Char :=
  '$' :: (toString n).toList

/-- Pastes arguments into a definition, the first of them for the placeholder with the given
number; each is pasted into the result of the one before. -/
def pasteFrom (n : Nat) (definition : List Char) : List Value → Except Fault (List Char)
  | [] => .ok definition
  | .text s :: rest => pasteFrom (n + 1) (replaceAll (placeholder n) s.toList definition) rest
  | _ :: _ => .error .wrongKind

/-- The plan of a composed skill for given arguments. -/
def ComposedSkill.expand (s : ComposedSkill) (arguments : List Value) : Except Fault (List Char) :=
  if !s.placed then .error .noLowerSet
  else if arguments.length ≠ s.parameters.length then
    .error (.wrongArity s.parameters.length arguments.length)
  else pasteFrom 1 s.definition.toList arguments

end DronePilot
