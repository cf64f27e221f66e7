import DronePilot.Value

/-!
# Plans as trees of statements

A plan is read character by character while it is still being written, so its tree has room for
what is only half read.  A statement is plain code, a condition or a loop count under way, a
finished action, or a block: a head with a body.  A body is itself a plan, with the statements that
are complete, the one under way, and a count of the braces that are open inside it.
-/

namespace DronePilot.Plan

/-- The text of a statement read so far. -/
structure Draft where
  text : String := ""
  /-- A letter or a low line has been read, so that a digit no longer starts a loop count. -/
  named : Bool := false
  /-- An opening bracket has been read, so that a question mark is text. -/
  inArguments : Bool := false
deriving Repr, DecidableEq, Inhabited

/-- What a block does with its body.  The condition of a conditional is the text of its draft. -/
inductive Head where
  | conditional
  | loop (count : Int)
deriving Repr, DecidableEq

/-- A sequence of statements with the statement under way. -/
structure Body (σ : Type) where
  statements : List σ
  current : σ
  /-- Braces opened in this body and not yet closed. -/
  depth : Nat
  /-- The closing brace of the body has been read, or its text is known to be complete. -/
  finished : Bool

/-- A statement, complete or under way. -/
inductive Statement where
  /-- Plain code under way. -/
  | code (draft : Draft)
  /-- A condition under way, after the question mark. -/
  | condition (draft : Draft)
  /-- A loop count under way. -/
  | count (draft : Draft)
  /-- A complete action. -/
  | action (draft : Draft)
  /-- A block, complete when its body is finished. -/
  | block (draft : Draft) (head : Head) (body : Body Statement)

/-- A plan: the body of no block. -/
abbrev Program := Body Statement

namespace Statement

/-- The statement of which nothing has been read. -/
def fresh : Statement := .code {}

instance : Inhabited Statement := ⟨fresh⟩

/-- The text read so far. -/
def draft : Statement → Draft
  | code d | condition d | count d | action d | block d _ _ => d

/-- A statement that is worth keeping: a block, or an action with a text. -/
def isProper : Statement → Bool
  | action d => d.text != ""
  | condition _ | count _ | block .. => true
  | code _ => false

/-- A statement that is complete enough to be started. -/
def isExecutable : Statement → Bool
  | action _ | block .. => true
  | _ => false

/-- A block whose closing brace has not been read. -/
def isOpenBlock : Statement → Bool
  | block _ _ body => !body.finished
  | _ => false

end Statement

/-- The plan of which nothing has been read. -/
def Body.fresh : Program :=
  { statements := [], current := .fresh, depth := 0, finished := false }

instance : Inhabited Program := ⟨Body.fresh⟩

/-- A plan whose text is known to be complete. -/
def Body.finish (p : Program) : Program :=
  { p with finished := true }

mutual

/-- A statement as the execution history shows it. -/
def Statement.render : Statement → String
  | .code _ => ""
  | .condition _ => "if None"
  | .count _ => "[None]"
  | .action d =>
    if d.text = "if" then "if None" else if d.text = "loop" then "[None]" else d.text
  | .block d .conditional ⟨statements, _, _, _⟩ =>
    "if " ++ d.text ++ " \x7b" ++ renderAll statements ++ "\x7d"
  | .block _ (.loop n) ⟨statements, _, _, _⟩ =>
    "[" ++ toString n ++ "] \x7b" ++ renderAll statements ++ "\x7d"

/-- Statements one after the other. -/
def renderAll : List Statement → String
  | [] => ""
  | s :: rest => s.render ++ "; " ++ renderAll rest

end

/-- The complete statements of a plan. -/
def Body.render (p : Program) : String :=
  renderAll p.statements

end DronePilot.Plan
