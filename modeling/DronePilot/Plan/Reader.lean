import DronePilot.Plan.Literal
import DronePilot.Plan.Statement
import DronePilot.Text.Letter

/-!
# Reading plans

The reader takes a plan one character at a time.  A character goes to the statement under way,
which may pass it on to the statement under way in its own body, and so on inwards; then every
level counts braces for itself.  A step can fail only where a brace follows a loop count that is no
number, and then nothing has changed at any level.

A statement becomes *ready* at the character that completes its head: an action at its end, a block
at its opening brace.  The reader reports this for the outermost level, where statements are handed
to the executor.
-/

namespace DronePilot.Plan

open DronePilot.Text

/-- What a character does to a statement. -/
structure Statement.Step where
  next : Statement
  /-- The statement ended with this character. -/
  ended : Bool
  /-- The statement became ready with this character. -/
  ready : Bool

/-- What a character does to a plan. -/
structure Body.Step where
  next : Program
  /-- The character was a closing brace without an opening one. -/
  closed : Bool
  /-- The statement under way became ready with this character. -/
  ready : Bool

/-- One more character of plain code. -/
def Draft.push (d : Draft) (c : Char) : Draft :=
  { text := d.text.push c
    named := d.named || isLetter c || c == '_'
    inArguments := d.inArguments || c == '(' }

/-- One more character of a condition or a loop count. -/
def Draft.extend (d : Draft) (c : Char) : Draft :=
  { d with text := d.text.push c }

/-- The closing bracket of a call ends its arguments. -/
def Draft.closeCall (d : Draft) : Draft :=
  { d with text := d.text.push ')', inArguments := false }

/-- A block whose body is still empty. -/
def Statement.opening (d : Draft) (head : Head) : Statement.Step :=
  { next := .block d head Body.fresh, ended := false, ready := true }

/-- The statement under way has not ended. -/
def Statement.continuing (s : Statement) : Statement.Step :=
  { next := s, ended := false, ready := false }

/-- The statement under way is a complete action. -/
def Statement.acting (d : Draft) : Statement.Step :=
  { next := .action d, ended := true, ready := d.text != "" }

/-- A character of plain code.  A digit before any letter starts a loop count. -/
def Statement.stepCode (d : Draft) (c : Char) : Statement.Step :=
  if c = '?' && !d.inArguments then Statement.continuing (.condition d)
  else if c = ';' || c = '}' then Statement.acting d
  else if c = ')' then Statement.acting d.closeCall
  else if isDigitSign c && !(d.push c).named then Statement.continuing (.count (d.push c))
  else Statement.continuing (.code (d.push c))

/-- What a character does to a body, once its current statement has taken it. -/
def Body.advance (p : Program) (s : Statement.Step) (c : Char) : Body.Step :=
  let read : Program :=
    if s.ended then
      { p with
        statements := if s.next.isProper then p.statements ++ [s.next] else p.statements
        current := .fresh }
    else { p with current := s.next }
  if c = '{' then { next := { read with depth := p.depth + 1 }, closed := false, ready := s.ready }
  else if c = '}' then
    if p.depth = 0 then { next := { read with finished := true }, closed := true, ready := s.ready }
    else { next := { read with depth := p.depth - 1 }, closed := false, ready := s.ready }
  else { next := read, closed := false, ready := s.ready }

/-- What a character does to a statement.  Complete statements take no more characters. -/
def Statement.step : Statement → Char → Except Fault Statement.Step
  | .code d, c => .ok (Statement.stepCode d c)
  | .condition d, c =>
    if c = '{' then .ok (Statement.opening d .conditional)
    else .ok (Statement.continuing (.condition (d.extend c)))
  | .count d, c =>
    if c = '{' then do
      let n ← wholeLiteral d.text.toList
      pure (Statement.opening d (.loop n))
    else .ok (Statement.continuing (.count (d.extend c)))
  | .action d, _ => .ok { next := .action d, ended := true, ready := false }
  | .block d head ⟨statements, current, depth, finished⟩, c => do
    let inner ← Statement.step current c
    let b := Body.advance ⟨statements, current, depth, finished⟩ inner c
    pure { next := .block d head b.next, ended := b.closed, ready := false }

/-- What a character does to a plan. -/
def Body.step (p : Program) (c : Char) : Except Fault Body.Step := do
  let s ← p.current.step c
  pure (p.advance s c)

/-- How the reading of a text ends. -/
inductive Reading where
  /-- All of it was read. -/
  | more
  /-- It stopped at a closing brace without an opening one. -/
  | closed
  /-- It stopped at a character that cannot be taken. -/
  | failed (f : Fault)
deriving Repr

/-- A plan being read, with the positions of the statements that became ready, oldest first. -/
structure Intake where
  program : Program := Body.fresh
  ready : List Nat := []

/-- The intake after a step of its plan. -/
def Intake.after (i : Intake) (s : Body.Step) : Intake :=
  { program := s.next
    ready := if s.ready then i.ready ++ [i.program.statements.length] else i.ready }

/-- Reads a text, up to its end, a closing brace too many or a failure. -/
def Intake.feed (i : Intake) : List Char → Intake × Reading
  | [] => (i, .more)
  | c :: cs =>
    match i.program.step c with
    | .error f => (i, .failed f)
    | .ok s => if s.closed then (i.after s, .closed) else (i.after s).feed cs

/-- Reads a text into a plan. -/
def Body.feed (p : Program) (text : List Char) : Program × Reading :=
  let (i, r) := Intake.feed { program := p } text
  (i.program, r)

/-- Reads the whole text of a statement on its own, up to its end.  The count says how often it
became ready. -/
def Statement.feed (s : Statement) : List Char → Nat → Statement × Nat × Except Fault Bool
  | [], ready => (s, ready, .ok false)
  | c :: cs, ready =>
    match s.step c with
    | .error f => (s, ready, .error f)
    | .ok t =>
      let ready := if t.ready then ready + 1 else ready
      if t.ended then (t.next, ready, .ok true) else t.next.feed cs ready

/-- A piece of a plan as it arrives: text, a streamed piece that may be without text, or something
that is neither. -/
inductive Chunk where
  | text (s : String)
  | delta (s : Option String)
  | other
deriving Repr

/-- The text of a chunk; some chunks have none. -/
def Chunk.text? : Chunk → Except Fault (Option String)
  | text s => .ok (some s)
  | delta s => .ok s
  | other => .error .noSuchPart

/-- The message that shows a piece of a plan to the user: its text with a mark that more of the
line may follow. -/
def chunkMessage (s : String) : String :=
  s ++ "\\\\"

/-- Takes one chunk, with the message that shows it.  Chunks without text are passed over. -/
def Intake.take (i : Intake) (chunk : Chunk) : Intake × List String × Reading :=
  match chunk.text? with
  | .error f => (i, [], .failed f)
  | .ok none => (i, [], .more)
  | .ok (some s) =>
    if s = "" then (i, [], .more)
    else
      let (i', r) := i.feed s.toList
      (i', [chunkMessage s], r)

/-- Takes chunks in order until one of them stops the reading. -/
def Intake.takeAll (i : Intake) : List Chunk → Intake × List String × Reading
  | [] => (i, [], .more)
  | chunk :: rest =>
    match i.take chunk with
    | (i', shown, .more) =>
      let (i'', shown', r) := i'.takeAll rest
      (i'', shown ++ shown', r)
    | stopped => stopped

end DronePilot.Plan
