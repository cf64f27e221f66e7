import DronePilot.Decimal.Binary64
import DronePilot.Text.Blank
import DronePilot.Text.Digit

/-!
# Reading numerals

Whole numbers and doubles are read from text by two grammars.  Both take decimal digits of every
script, allow blanks around the numeral and a single low line between digits.  A whole number has
at most `maxDigits` digits, read or written.
-/

namespace DronePilot.Decimal

open DronePilot.Text DronePilot.Binary64

/-- The most digits that a whole number may be written with.  The machine that runs the program sets
this limit, so that no text takes too long to be turned into a number, and no number into a text. -/
def maxDigits : Nat := 4300

/-- Whether a number has at most so many digits. -/
def fitsDigits : Nat → Nat → Bool
  | 0, n => n == 0
  | digits + 1, n => n == 0 || fitsDigits digits (n / 10)

/-- Why a text is not a whole number. -/
inductive WholeError where
  | notANumeral
  | tooManyDigits (count : Nat)
deriving Repr, DecidableEq

/-- The value of an ASCII digit. -/
def asciiDigit? (c : Char) : Option Nat :=
  if c.isDigit then some (c.toNat - 48) else none

/-- Writes decimal digits of every script in ASCII and foreign blanks as spaces; any other
character beyond ASCII becomes a question mark, which no numeral contains. -/
def toAscii (c : Char) : Char :=
  if c.toNat < 127 then c
  else if isBlank c then ' '
  else match digitValue? c with
    | some d => Nat.digitChar d
    | none => '?'

/-- A numeral in ASCII without the blanks around it. -/
def bareNumeral (s : List Char) : List Char :=
  trimWhere isAsciiBlank (s.map toAscii)

/-- Splits a leading sign off; the flag says that it is a minus. -/
def takeSign : List Char → Bool × List Char
  | '-' :: cs => (true, cs)
  | '+' :: cs => (false, cs)
  | cs => (false, cs)

/-- Digits with single low lines between them; the flag says that a digit stands before. -/
def readDigitsFrom : Bool → List Char → Option (List Nat)
  | afterDigit, [] => if afterDigit then some [] else none
  | afterDigit, c :: cs =>
    if c = '_' then
      if afterDigit then readDigitsFrom false cs else none
    else
      match asciiDigit? c with
      | some d => (readDigitsFrom true cs).map (d :: ·)
      | none => none

/-- A non-empty run of digits with single low lines between them. -/
def readDigits (s : List Char) : Option (List Nat) :=
  readDigitsFrom false s

/-- The number that digits stand for. -/
def valueOf (ds : List Nat) : Nat :=
  ds.foldl (fun n d => 10 * n + d) 0

/-- Reads a whole number. -/
def readWhole (s : List Char) : Except WholeError Int :=
  let (negative, body) := takeSign (bareNumeral s)
  match readDigits body with
  | none => .error .notANumeral
  | some ds =>
    if maxDigits < ds.length then .error (.tooManyDigits ds.length)
    else if negative then .ok (-(valueOf ds : Int))
    else .ok (valueOf ds)

/-- The double nearest to `mantissa * 10 ^ exponent`. -/
def ofDecimal (negative : Bool) (mantissa : Nat) (exponent : Int) : Float :=
  if mantissa = 0 then ofRatio negative 0 1
  else
    let size := (Nat.toDigits 10 mantissa).length
    let lead := (size : Int) + exponent
    if 320 < lead then ofMagnitude negative (2047 * twoTo 52)
    else if lead < -330 then ofRatio negative 0 1
    else if 0 ≤ exponent then ofRatio negative (mantissa * tenTo exponent.toNat) 1
    else ofRatio negative mantissa (tenTo (-exponent).toNat)

/-- Removes the low lines of a numeral; each has to stand between two digits. -/
def dropLowLines : Bool → List Char → Option (List Char)
  | _, [] => some []
  | afterDigit, c :: cs =>
    if c = '_' then
      match cs with
      | next :: _ =>
        if afterDigit && next.isDigit then dropLowLines false cs else none
      | [] => none
    else (dropLowLines c.isDigit cs).map (c :: ·)

/-- Splits a run of ASCII digits off. -/
def takeDigits (s : List Char) : List Nat × List Char :=
  ((s.takeWhile Char.isDigit).filterMap asciiDigit?, s.dropWhile Char.isDigit)

/-- The exponent at the end of a decimal: absent, or a letter, a sign and digits. -/
def readExponent : List Char → Option Int
  | [] => some 0
  | c :: cs =>
    if c = 'e' || c = 'E' then
      let (negative, body) := takeSign cs
      let (ds, rest) := takeDigits body
      if ds.isEmpty || !rest.isEmpty then none
      else some (if negative then -(valueOf ds : Int) else valueOf ds)
    else none

/-- An unsigned decimal: digits with a point among them or at either end, and an exponent. -/
def readDecimal (negative : Bool) (s : List Char) : Option Float :=
  let (whole, rest) := takeDigits s
  let (places, rest) :=
    match rest with
    | '.' :: cs => takeDigits cs
    | cs => ([], cs)
  if whole.isEmpty && places.isEmpty then none
  else
    (readExponent rest).map fun e =>
      ofDecimal negative (valueOf (whole ++ places)) (e - places.length)

/-- Reads a double: a decimal, an infinity or not-a-number, the last two in any case. -/
def readReal (s : List Char) : Option Float :=
  match dropLowLines false (bareNumeral s) with
  | none => none
  | some cs =>
    let (negative, body) := takeSign cs
    let lower := String.ofList (body.map Char.toLower)
    if lower == "inf" || lower == "infinity" then some (ofMagnitude negative (2047 * twoTo 52))
    else if lower == "nan" then some (0.0 / 0.0)
    else readDecimal negative body

end DronePilot.Decimal
