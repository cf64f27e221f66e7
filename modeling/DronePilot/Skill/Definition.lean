import DronePilot.Skill.Basic
import DronePilot.Table
import DronePilot.Text.Letter

/-!
# Parameters of composed skills

The parameters of a composed skill follow from its definition.  Every call in the definition is
looked up, and a placeholder takes over the parameter at the place where it first stands.
-/

namespace DronePilot.Skill

open DronePilot.Text

/-- Where a search for calls stands: after a word that may name a call, or inside the brackets of
one. -/
inductive CallScan where
  | outside (word : List Char)
  | inside (name arguments : List Char)

/-- The calls in a text: a word, an opening bracket and all up to the next closing bracket. -/
def callsFrom : CallScan → List Char → List (List Char × List Char)
  | _, [] => []
  | .outside word, c :: cs =>
    if c = '(' && !word.isEmpty then callsFrom (.inside word []) cs
    else if isWordChar c then callsFrom (.outside (word ++ [c])) cs
    else callsFrom (.outside []) cs
  | .inside name arguments, c :: cs =>
    if c = ')' then (name, arguments) :: callsFrom (.outside []) cs
    else callsFrom (.inside name (arguments ++ [c])) cs

/-- The calls in a definition, with the texts of their arguments. -/
def callsIn (definition : List Char) : List (String × List (List Char)) :=
  (callsFrom (.outside []) definition).map fun (name, arguments) =>
    (String.ofList name, (pieces ',' arguments).map trim)

/-- The conversions that every plan can call, with their parameter. -/
def conversion? (name : String) : Option ParameterKind :=
  if name = "int" then some .int
  else if name = "float" then some .float
  else if name = "str" then some .text
  else none

/-- The parameters of what a definition calls. -/
def calleeParameters (find? : String → Option Skill) (name : String) :
    Except Fault (List Parameter) :=
  match conversion? name with
  | some kind => .ok [{ name := "value", kind := kind }]
  | none =>
    match find? name with
    | some s => .ok s.parameters
    | none => .error (.unknownCallee name)

/-- Notes the parameters of the placeholders among the arguments of one call. -/
def notePlaceholders (parameters : List Parameter) (noted : Table String Parameter) :
    Nat → List (List Char) → Except Fault (Table String Parameter)
  | _, [] => .ok noted
  | i, argument :: rest =>
    if isPlaceholder argument && !noted.contains (String.ofList argument) then
      match parameters[i]? with
      | some p => notePlaceholders parameters (noted.insert (String.ofList argument) p) (i + 1) rest
      | none => .error .noSuchPosition
    else notePlaceholders parameters noted (i + 1) rest

/-- Notes the parameters of the placeholders of all calls. -/
def noteCalls (find? : String → Option Skill) (noted : Table String Parameter) :
    List (String × List (List Char)) → Except Fault (Table String Parameter)
  | [] => .ok noted
  | (name, arguments) :: rest => do
    let parameters ← calleeParameters find? name
    let noted ← notePlaceholders parameters noted 0 arguments
    noteCalls find? noted rest

/-- The parameters of a composed skill, in the order of the texts of their placeholders. -/
def inferParameters (find? : String → Option Skill) (definition : String) :
    Except Fault (List Parameter) := do
  let noted ← noteCalls find? Table.empty (callsIn definition.toList)
  pure ((noted.entries.mergeSort fun a b => decide (a.1 ≤ b.1)).map Prod.snd)

end DronePilot.Skill
