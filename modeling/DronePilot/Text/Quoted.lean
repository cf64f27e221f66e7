import DronePilot.Text.Printable

/-!
# Quoted text

Text shown between quotation marks.  Single marks are used unless the text holds a single mark and
no double one.  The mark in use and the backslash are escaped, line breaks and tabs get their short
escapes, and every character that is not printable is written by its code point.
-/

namespace DronePilot.Text

/-- The last `width` hexadecimal digits of a number, in lower case. -/
def hexDigits (width n : Nat) : List Char :=
  (List.range width).reverse.map fun k => (Nat.digitChar (n / Nat.pow 16 k % 16))

/-- One character of a text quoted with the given mark. -/
def quoteChar (mark c : Char) : List Char :=
  if c == mark || c == '\\' then ['\\', c]
  else if c == '\n' then ['\\', 'n']
  else if c == '\r' then ['\\', 'r']
  else if c == '\t' then ['\\', 't']
  else if isPrintable c then [c]
  else if c.toNat < 0x100 then '\\' :: 'x' :: hexDigits 2 c.toNat
  else if c.toNat < 0x10000 then '\\' :: 'u' :: hexDigits 4 c.toNat
  else '\\' :: 'U' :: hexDigits 8 c.toNat

/-- The mark that a text is quoted with. -/
def quoteMark (s : List Char) : Char :=
  if s.contains '\'' && !s.contains '"' then '"' else '\''

/-- The text between quotation marks, with escapes. -/
def quoted (s : List Char) : List Char :=
  let mark := quoteMark s
  mark :: (s.flatMap (quoteChar mark) ++ [mark])

end DronePilot.Text
