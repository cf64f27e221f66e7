import DronePilot.Decimal.Numeral
import DronePilot.Document

/-!
# Reading documents

Reading takes two passes, each of which goes through its input once.  The first cuts the text into
tokens; the second builds the document, keeping the containers that are still open on a stack.
Blanks between tokens are skipped.  A field that is given twice keeps its first place and its last
value.
-/

namespace DronePilot.Document

open DronePilot.Decimal

/-- The pieces of a written document. -/
inductive Token where
  | openList
  | closeList
  | openDict
  | closeDict
  | colon
  | comma
  | text (s : String)
  | value (v : Value)

/-- The blanks between tokens. -/
def isGap (c : Char) : Bool :=
  c == ' ' || c == '\t' || c == '\n' || c == '\r'

/-- The token that a character is on its own. -/
def Token.ofChar? (c : Char) : Option Token :=
  if c == '[' then some openList
  else if c == ']' then some closeList
  else if c == '\x7b' then some openDict
  else if c == '\x7d' then some closeDict
  else if c == ':' then some colon
  else if c == ',' then some comma
  else none

/-- The characters of words and numerals. -/
def isWordPart (c : Char) : Bool :=
  c.isAlphanum || c == '-' || c == '+' || c == '.'

/-- The digits after a point, at least one. -/
def readPlaces (s : List Char) : Option (List Nat × List Char) :=
  match takeDigits s with
  | ([], _) => none
  | found => some found

/-- A numeral: whole digits without a needless zero in front, then places and an exponent.  One
that has neither of the two stands for a whole number. -/
def readNumeral (negative : Bool) (s : List Char) : Except Fault Value :=
  match takeDigits s with
  | ([], _) => .error .unreadableDocument
  | (0 :: _ :: _, _) => .error .unreadableDocument
  | (whole, []) =>
    if maxDigits < whole.length then .error .unreadableNumber
    else .ok (.int (if negative then -(valueOf whole : Int) else valueOf whole))
  | (whole, rest) =>
    let places := match rest with
      | '.' :: cs => readPlaces cs
      | cs => some ([], cs)
    match places with
    | none => .error .unreadableDocument
    | some (places, rest) =>
      match readExponent rest with
      | none => .error .unreadableDocument
      | some e => .ok (.float (ofDecimal negative (valueOf (whole ++ places)) (e - places.length)))

/-- What a word stands for. -/
def readWord (s : List Char) : Except Fault Value :=
  if s = "null".toList then .ok .nothing
  else if s = "true".toList then .ok (.bool true)
  else if s = "false".toList then .ok (.bool false)
  else if s = "NaN".toList then .ok (.float (0.0 / 0.0))
  else if s = "Infinity".toList then .ok (.float (1.0 / 0.0))
  else if s = "-Infinity".toList then .ok (.float (-1.0 / 0.0))
  else
    match s with
    | '-' :: cs => readNumeral true cs
    | cs => readNumeral false cs

/-- The character that a letter after a backslash stands for. -/
def shortEscape? (c : Char) : Option Char :=
  if c == '"' || c == '\\' || c == '/' then some c
  else if c == 'b' then some '\x08'
  else if c == 'f' then some '\x0c'
  else if c == 'n' then some '\n'
  else if c == 'r' then some '\r'
  else if c == 't' then some '\t'
  else none

/-- The value of a hexadecimal digit. -/
def hexValue? (c : Char) : Option Nat :=
  if c.isDigit then some (c.toNat - 48)
  else if 'a' ≤ c && c ≤ 'f' then some (c.toNat - 87)
  else if 'A' ≤ c && c ≤ 'F' then some (c.toNat - 55)
  else none

/-- A text under way: its characters, newest first, and a surrogate that waits for its partner. -/
structure Draft where
  chars : List Char := []
  high : Option Nat := none

/-- A surrogate without its partner is no character and becomes the replacement character. -/
def Draft.settle (d : Draft) : List Char :=
  match d.high with
  | some _ => '\ufffd' :: d.chars
  | none => d.chars

/-- Adds a character. -/
def Draft.push (d : Draft) (c : Char) : Draft :=
  { chars := c :: d.settle }

/-- Adds a code unit. -/
def Draft.pushUnit (d : Draft) (n : Nat) : Draft :=
  if 0xd800 ≤ n && n < 0xdc00 then { chars := d.settle, high := some n }
  else if 0xdc00 ≤ n && n < 0xe000 then
    match d.high with
    | some h => { chars := Char.ofNat (0x10000 + (h - 0xd800) * 0x400 + (n - 0xdc00)) :: d.chars }
    | none => d.push '\ufffd'
  else d.push (Char.ofNat n)

/-- The text of a draft. -/
def Draft.toText (d : Draft) : String :=
  String.ofList d.settle.reverse

/-- Where the first pass stands. -/
inductive Mode where
  | between
  | word (newestFirst : List Char)
  | text (d : Draft)
  /-- After a backslash. -/
  | escape (d : Draft)
  /-- Inside a code unit: digits still to come and the value of those before. -/
  | unit (d : Draft) (missing : Nat) (worth : Nat)

/-- One character between tokens. -/
def scanBetween (c : Char) : Except Fault (List Token × Mode) :=
  if isGap c then .ok ([], .between)
  else if c == '"' then .ok ([], .text {})
  else if isWordPart c then .ok ([], .word [c])
  else
    match Token.ofChar? c with
    | some t => .ok ([t], .between)
    | none => .error .unreadableDocument

/-- One character of the first pass: the tokens that it completes and where it leads. -/
def scanChar (mode : Mode) (c : Char) : Except Fault (List Token × Mode) :=
  match mode with
  | .between => scanBetween c
  | .word cs =>
    if isWordPart c then .ok ([], .word (c :: cs))
    else do
      let v ← readWord cs.reverse
      let (tokens, next) ← scanBetween c
      pure (.value v :: tokens, next)
  | .text d =>
    if c == '"' then .ok ([.text d.toText], .between)
    else if c == '\\' then .ok ([], .escape d)
    else if c.toNat < 0x20 then .error .unreadableDocument
    else .ok ([], .text (d.push c))
  | .escape d =>
    if c == 'u' then .ok ([], .unit d 4 0)
    else
      match shortEscape? c with
      | some e => .ok ([], .text (d.push e))
      | none => .error .unreadableDocument
  | .unit d missing worth =>
    match hexValue? c with
    | none => .error .unreadableDocument
    | some h =>
      let worth := 16 * worth + h
      if missing ≤ 1 then .ok ([], .text (d.pushUnit worth))
      else .ok ([], .unit d (missing - 1) worth)

/-- The tokens of a text from a given point on. -/
def scanFrom : Mode → List Char → Except Fault (List Token)
  | .between, [] => .ok []
  | .word cs, [] => do
    let v ← readWord cs.reverse
    pure [.value v]
  | _, [] => .error .unreadableDocument
  | mode, c :: rest => do
    let (tokens, next) ← scanChar mode c
    let more ← scanFrom next rest
    pure (tokens ++ more)

/-- A container that is still open, with what is in it so far; a dictionary also has the name of
the field under way. -/
inductive Container where
  | list (newestFirst : List Document)
  | dict (fields : List (String × Document)) (key : String)

/-- Where the second pass stands. -/
inductive Awaiting where
  /-- A value. -/
  | item
  /-- A value, or the end of an empty list. -/
  | firstItem
  /-- The name of a field. -/
  | key
  /-- The name of a field, or the end of an empty dictionary. -/
  | firstKey
  /-- The colon after the name of a field. -/
  | colon
  /-- A comma, or the end of the innermost container. -/
  | separator
  /-- Nothing: the document is complete. -/
  | nothing (d : Document)

/-- The second pass: the open containers, innermost first, and what has to come next. -/
structure Builder where
  stack : List Container := []
  awaiting : Awaiting := .item

/-- Puts a complete document where it belongs. -/
def Builder.place (stack : List Container) (d : Document) : Builder :=
  match stack with
  | [] => { awaiting := .nothing d }
  | .list ds :: rest => { stack := .list (d :: ds) :: rest, awaiting := .separator }
  | .dict fields key :: rest =>
    { stack := .dict (setField key d fields) key :: rest, awaiting := .separator }

/-- A token where a value is due. -/
def Builder.start (stack : List Container) : Token → Except Fault Builder
  | .openList => .ok { stack := .list [] :: stack, awaiting := .firstItem }
  | .openDict => .ok { stack := .dict [] "" :: stack, awaiting := .firstKey }
  | .text s => .ok (place stack (Document.text s))
  | .value v => .ok (place stack (.value v))
  | _ => .error .unreadableDocument

/-- One token of the second pass. -/
def Builder.step (b : Builder) (t : Token) : Except Fault Builder :=
  match b.awaiting, b.stack, t with
  | .firstItem, .list ds :: rest, .closeList => .ok (place rest (.list ds.reverse))
  | .separator, .list ds :: rest, .closeList => .ok (place rest (.list ds.reverse))
  | .separator, .list _ :: _, .comma => .ok { b with awaiting := .item }
  | .firstKey, .dict fields _ :: rest, .closeDict => .ok (place rest (.dict fields))
  | .separator, .dict fields _ :: rest, .closeDict => .ok (place rest (.dict fields))
  | .separator, .dict _ _ :: _, .comma => .ok { b with awaiting := .key }
  | .firstKey, .dict fields _ :: rest, .text key =>
    .ok { stack := .dict fields key :: rest, awaiting := .colon }
  | .key, .dict fields _ :: rest, .text key =>
    .ok { stack := .dict fields key :: rest, awaiting := .colon }
  | .colon, _, .colon => .ok { b with awaiting := .item }
  | .item, stack, t => start stack t
  | .firstItem, stack, t => start stack t
  | _, _, _ => .error .unreadableDocument

/-- The document that the tokens make up. -/
def Builder.finish : Builder → List Token → Except Fault Document
  | { awaiting := .nothing d, .. }, [] => .ok d
  | _, [] => .error .unreadableDocument
  | b, t :: rest => do
    let b ← b.step t
    b.finish rest

/-- The document that a text stands for. -/
def read (s : String) : Except Fault Document := do
  let tokens ← scanFrom .between s.toList
  Builder.finish {} tokens

end DronePilot.Document
