import DronePilot.Document

/-!
# Lines with the time of day

Lines on the console begin with the time of day in square brackets, down to milliseconds.
-/

namespace DronePilot.Chat

/-- A time of day. -/
structure TimeOfDay where
  hour : Nat
  minute : Nat
  second : Nat
  microsecond : Nat
deriving Repr, DecidableEq

/-- The time in square brackets.  What is less than a millisecond is left out. -/
def TimeOfDay.stamp (t : TimeOfDay) : String :=
  "[" ++ Decimal.padded 2 t.hour ++ ":" ++ Decimal.padded 2 t.minute ++ ":" ++
    Decimal.padded 2 t.second ++ "." ++ Decimal.padded 3 (t.microsecond / 1000) ++ "]"

/-- Things printed after the time, with a text between each two and one at the end. -/
def TimeOfDay.line (t : TimeOfDay) (things : List Document) (between ending : String) : String :=
  between.intercalate (t.stamp :: things.map Document.display) ++ ending

/-- A text that says what stands between things or at their end.  Nothing stands for the default. -/
def separator (default : String) : Document → Except Fault String
  | .value .nothing => .ok default
  | .value (.text s) => .ok s
  | _ => .error .wrongKind

/-- The question that somebody is asked at a time. -/
def TimeOfDay.question (t : TimeOfDay) (question : Document) : String :=
  t.stamp ++ " " ++ question.display

/-- The first line of an input, without its end, and what follows.  An input that is over has no
line. -/
def takeLine (input : List Char) : Option (List Char × List Char) :=
  if input.isEmpty then none
  else some (input.takeWhile (· != '\n'), (input.dropWhile (· != '\n')).drop 1)

/-- Asks a question a number of times: what was printed, and the answers. -/
def TimeOfDay.ask (t : TimeOfDay) (question : Document) :
    Nat → List Char → String × Except Fault (List String)
  | 0, _ => ("", .ok [])
  | n + 1, input =>
    let shown := t.question question
    match takeLine input with
    | none => (shown, .error .endOfInput)
    | some (line, rest) =>
      let (more, answers) := t.ask question n rest
      (shown ++ more, (String.ofList line :: ·) <$> answers)

end DronePilot.Chat
