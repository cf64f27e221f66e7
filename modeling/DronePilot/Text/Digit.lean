import DronePilot.Text.Ranges

/-!
# Digits

A *decimal digit* is a character with a value from 0 to 9 in some script's decimal notation; every
script writes its ten digits in a row, so the table lists the zeros only.  A *digit sign* is a
decimal digit or one of the raised, circled and bracketed digits, which look like a number but
have no place value: text made of digit signs is taken for a number, and reading it as one may
then fail.
-/

namespace DronePilot.Text

/-- The code points of the digit zero of every script other than ASCII. -/
def decimalZeros : List Nat :=
  [1632, 1776, 1984, 2406, 2534, 2662, 2790, 2918, 3046, 3174, 3302, 3430, 3558, 3664, 3792,
    3872, 4160, 4240, 6112, 6160, 6470, 6608, 6784, 6800, 6992, 7088, 7232, 7248, 42528, 43216,
    43264, 43472, 43504, 43600, 44016, 65296, 66720, 68912, 69734, 69872, 69942, 70096, 70384,
    70736, 70864, 71248, 71360, 71472, 71904, 72016, 72784, 73040, 73120, 92768, 92864, 93008,
    120782, 120792, 120802, 120812, 120822, 123200, 123632, 125264, 130032]

/-- The digits outside place-value notation: superscripts, subscripts, circled digits and the
like. -/
def ornamentalDigits : Ranges :=
  [(178, 179), (185, 185), (4969, 4977), (6618, 6618), (8304, 8304), (8308, 8313), (8320, 8329),
    (9312, 9320), (9332, 9340), (9352, 9360), (9450, 9450), (9461, 9469), (9471, 9471),
    (10102, 10110), (10112, 10120), (10122, 10130), (68160, 68163), (69216, 69224),
    (69714, 69722), (127232, 127242)]

/-- The value of a decimal digit of any script. -/
def digitValue? (c : Char) : Option Nat :=
  if c.toNat < 128 then
    if c.isDigit then some (c.toNat - 48) else none
  else
    (decimalZeros.find? fun base => base ≤ c.toNat && c.toNat < base + 10).map (c.toNat - ·)

/-- Decimal digits of any script, and the digits outside place-value notation. -/
def isDigitSign (c : Char) : Bool :=
  if c.toNat < 128 then c.isDigit
  else (digitValue? c).isSome || ornamentalDigits.contains c

/-- On ASCII the digit signs are the ten digits. -/
theorem isDigitSign_of_ascii {c : Char} (h : c.toNat < 128) : isDigitSign c = c.isDigit := by
  simp [isDigitSign, h]

end DronePilot.Text
