import DronePilot.Skill.Parameter
import DronePilot.Text.Quoted
import DronePilot.Value

/-!
# Faults

Everything that can go wrong, by cause.  Some faults speak for themselves and carry a message for
the user; the rest are failures of a reading, a look-up or an operation that no part of the program
words on its own.
-/

namespace DronePilot

/-- Why the text of an argument cannot be read. -/
inductive ReadError where
  | notWhole
  | tooManyDigits (count : Nat)
  | notReal
deriving Repr, DecidableEq

/-- The causes of failure. -/
inductive Fault where
  /-- A variable is used before it has a value. -/
  | undefinedVariable (name : String)
  /-- A call names no skill. -/
  | undefinedSkill (name : String)
  /-- An operator or a return has nothing to work on. -/
  | emptyOperand
  /-- An order is asked of values of different kinds. -/
  | incomparable (left right : Value)
  /-- An interpreter is made before its skills are known. -/
  | skillsNotReady
  /-- A skill is given the wrong number of arguments. -/
  | wrongArity (expected got : Nat)
  /-- The text of an argument does not have its parameter's kind. -/
  | unreadableArgument (position : Nat) (kind : ParameterKind) (text : String) (cause : ReadError)
  /-- A skill is bound to something that cannot be run. -/
  | notRunnable (binding : String)
  /-- A skill set has a skill of this name already. -/
  | duplicateSkill (name : String)
  /-- A skill set has no skill of this name. -/
  | unknownSkill (name : String)
  /-- A composed skill has no set of basic skills below it. -/
  | noLowerSet
  /-- The definition of a composed skill calls a skill that is in no set. -/
  | unknownCallee (name : String)
  /-- A robot cannot be reached. -/
  | unreachable (what : String)
  /-- More than one equals sign in an assignment. -/
  | malformedAssignment
  /-- A condition without exactly one comparison. -/
  | malformedComparison
  /-- A number cannot be read from a text. -/
  | unreadableNumber
  /-- The level of a skill set is neither of the two. -/
  | unknownLevel
  /-- A value outside the range that an operation accepts. -/
  | outOfRange
  /-- An operation does not apply to values of these kinds. -/
  | wrongKind
  /-- Division by zero. -/
  | divisionByZero
  /-- A number is too large for a double or a count. -/
  | tooLarge
  /-- A number has too many digits to be written. -/
  | unwritable
  /-- A text would take more room than there is. -/
  | noRoom
  /-- A position outside a list. -/
  | noSuchPosition
  /-- A key without an entry. -/
  | noSuchKey
  /-- Something is asked for what it does not have. -/
  | noSuchPart
  /-- A value is used on a path that never set it. -/
  | unsetVariable
  /-- A text is not a document. -/
  | unreadableDocument
  /-- Bytes are not a picture. -/
  | unreadableImage
  /-- A file is missing. -/
  | missingFile
  /-- The input has ended. -/
  | endOfInput
  /-- A remote service failed. -/
  | remoteFailure
  /-- A remote service did not answer in time. -/
  | timedOut
  /-- Calls of composed skills are nested too deeply. -/
  | callsTooDeep
deriving Repr, Inhabited

/-- How an unreadable text is explained. -/
def ReadError.explain (text : String) : ReadError → String
  | notWhole =>
    "invalid literal for int() with base 10: " ++
      String.ofList ((Text.quoted text.toList).take 200)
  | tooManyDigits count =>
    "Exceeds the limit (4300 digits) for integer string conversion: value has " ++ toString count ++
      " digits; use sys.set_int_max_str_digits() to increase the limit"
  | notReal => "could not convert string to float: " ++ String.ofList (Text.quoted text.toList)

/-- A value in writing. -/
def Value.written (v : Value) : Except Fault String :=
  if v.isWritable then .ok v.display else .error .unwritable

/-- A value with its kind, as the message on incomparable values shows it. -/
def Value.displayWithKind (v : Value) : String :=
  v.display ++ ":<class '" ++ v.kind.name ++ "'>"

/-- The message of a fault that speaks for itself. -/
def Fault.message? : Fault → Option String
  | undefinedVariable name => some ("Variable " ++ name ++ " is not defined")
  | undefinedSkill name => some ("Skill " ++ name ++ " is not defined")
  | emptyOperand => some "Empty operand"
  | incomparable a b =>
    some ("Invalid comparator: " ++ a.displayWithKind ++ " " ++ b.displayWithKind)
  | skillsNotReady => some "Statement: Skillset is not initialized"
  | wrongArity expected got =>
    some ("Expected " ++ toString expected ++ " arguments, but got " ++ toString got ++ ".")
  | unreadableArgument position kind text cause =>
    some ("Error parsing argument " ++ toString position ++ ". Expected type " ++ kind.name ++
      ", but got value '" ++ text ++ "'. Original error: " ++ cause.explain text)
  | notRunnable binding => some ("'" ++ binding ++ "' is not a callable function.")
  | duplicateSkill name => some ("A skill with the name '" ++ name ++ "' already exists.")
  | unknownSkill name => some ("No skill found with the name '" ++ name ++ "'.")
  | noLowerSet => some "Low-level skillset is not set."
  | unknownCallee name =>
    some ("Skill '" ++ name ++ "' not found in the low-level or high-level skillset.")
  | unreachable what => some what
  | _ => none

/-- How a computation can end without a value: by a fault, or by waiting for something that will
not come. -/
inductive Halt where
  | fault (f : Fault)
  | stall
deriving Repr, Inhabited

/-- Two steps succeed if the first one does and the second one does with its result. -/
theorem bind_eq_ok_iff {α β : Type} {x : Except Fault α} {f : α → Except Fault β} {b : β} :
    x >>= f = .ok b ↔ ∃ a, x = .ok a ∧ f a = .ok b := by
  cases x with
  | error e => simp [bind, Except.bind]
  | ok a => simp [bind, Except.bind]

end DronePilot
