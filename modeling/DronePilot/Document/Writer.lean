import DronePilot.Document

/-!
# Writing documents

The text of a document: a comma and a space between items, a colon and a space after the name of a
field, and only ASCII characters.  A character beyond the basic plane is written as two surrogates.
-/

namespace DronePilot.Document

open DronePilot.Text

/-- A code unit written by number. -/
def unitEscape (n : Nat) : List Char :=
  '\\' :: 'u' :: hexDigits 4 n

/-- One character of a text. -/
def writeChar (c : Char) : List Char :=
  if c == '"' || c == '\\' then ['\\', c]
  else if c == '\n' then ['\\', 'n']
  else if c == '\r' then ['\\', 'r']
  else if c == '\t' then ['\\', 't']
  else if c == '\x08' then ['\\', 'b']
  else if c == '\x0c' then ['\\', 'f']
  else if 0x20 ≤ c.toNat && c.toNat < 0x7f then [c]
  else if c.toNat < 0x10000 then unitEscape c.toNat
  else
    let n := c.toNat - 0x10000
    unitEscape (0xd800 + n / 0x400) ++ unitEscape (0xdc00 + n % 0x400)

/-- A text between quotation marks. -/
def writeText (s : String) : String :=
  "\"" ++ String.ofList (s.toList.flatMap writeChar) ++ "\""

/-- A value. -/
def writeValue : Value → String
  | .nothing => "null"
  | .bool b => if b then "true" else "false"
  | .int n => toString n
  | .float x => Decimal.document.write x
  | .text s => writeText s

mutual

/-- The text of a document. -/
def write : Document → String
  | value v => writeValue v
  | list ds => "[" ++ writeItems ds ++ "]"
  | dict fields => "\x7b" ++ writeFields fields ++ "\x7d"

/-- The items of a list with commas between them. -/
def writeItems : List Document → String
  | [] => ""
  | [d] => d.write
  | d :: rest => d.write ++ ", " ++ writeItems rest

/-- The fields of a dictionary with commas between them. -/
def writeFields : List (String × Document) → String
  | [] => ""
  | [(key, d)] => writeText key ++ ": " ++ d.write
  | (key, d) :: rest => writeText key ++ ": " ++ d.write ++ ", " ++ writeFields rest

end

end DronePilot.Document
