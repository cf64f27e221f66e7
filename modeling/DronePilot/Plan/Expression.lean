import DronePilot.Plan.Arguments
import DronePilot.Plan.Literal
import DronePilot.Text.Letter
import DronePilot.Value.Arithmetic

/-!
# Expressions

The text of an action is analysed before anything is evaluated.  A leading arrow returns, an equals
sign assigns, and the operators split the text: first at every plus, then at every minus, then at
every times, then at every division sign.  What is left is a variable, a truth value, a call or a
literal.  Quotation marks and brackets do not protect their contents from the splitting.
-/

namespace DronePilot.Plan

open DronePilot.Text

/-- An argument of a call. -/
inductive Argument where
  | variable (name : String)
  | text (s : String)
deriving Repr, DecidableEq

/-- A call of a skill or of a conversion. -/
structure Call where
  name : String
  arguments : List Argument
deriving Repr, DecidableEq

/-- An expression. -/
inductive Expr where
  /-- A value that the analysis itself supplies, the start of a sum or a product. -/
  | const (v : Value)
  /-- Returns the value of an expression from the plan. -/
  | give (e : Expr)
  /-- Gives a variable the value of an expression. -/
  | assign (name : String) (e : Expr)
  /-- More than one equals sign. -/
  | ambiguous
  | binary (op : Operator) (left right : Expr)
  | empty
  | variable (name : String)
  | call (c : Call)
  | literal (s : List Char)

/-- An argument without the blanks and quotation marks around it; a leading low line names a
variable, inside quotation marks too. -/
def Argument.ofText (s : List Char) : Argument :=
  let bare := trimWhere isQuoteMark (trim s)
  if bare.head? = some '_' then .variable (String.ofList bare) else .text (String.ofList bare)

/-- A call: the text before the first bracket names it, and the text after it, without its last
character, holds the arguments. -/
def Call.ofText (s : List Char) : Call :=
  match cutAt? '(' s with
  | none => { name := String.ofList (trim s), arguments := [] }
  | some (name, rest) =>
    { name := String.ofList (trim name)
      arguments := (splitArguments (trim rest).dropLast).map Argument.ofText }

/-- Whether the text begins with the arrow of a return. -/
def isReturn : List Char → Bool
  | '-' :: '>' :: _ => true
  | _ => false

/-- The characters of arrows. -/
def isArrowChar (c : Char) : Bool :=
  c == '-' || c == '>'

/-- A text without operators. -/
def Expr.ofAtom (s : List Char) : Expr :=
  match s with
  | [] => .empty
  | c :: _ =>
    if c = '_' then .variable (String.ofList s)
    else if s = "True".toList || s = "False".toList then .literal s
    else if isLetter c then .call (Call.ofText s)
    else .literal s

/-- The operands applied from left to right. -/
def Expr.chain (op : Operator) (start : Expr) (operands : List Expr) : Expr :=
  operands.foldl (.binary op) start

/-- The first operand of a difference or a quotient is where it starts. -/
def Expr.chainFirst (op : Operator) : List Expr → Expr
  | [] => .empty
  | first :: rest => .chain op first rest

theorem length_dropWhile_arrow {s : List Char} (h : isReturn s = true) :
    (s.dropWhile isArrowChar).length < s.length := by
  unfold isReturn at h
  split at h
  · rename_i cs
    have h₁ : ('-' :: '>' :: cs).dropWhile isArrowChar = cs.dropWhile isArrowChar := by
      simp [isArrowChar]
    have h₂ := length_dropWhile_le isArrowChar cs
    rw [h₁]
    simp
    omega
  · exact absurd h (by simp)

/-- The expression that a text stands for. -/
def Expr.ofText (s : List Char) : Expr :=
  let t := trim s
  if _hr : isReturn t = true then .give (Expr.ofText (t.dropWhile isArrowChar))
  else if _he : '=' ∈ t then
    match _hp : pieces '=' t with
    | [name, e] => .assign (String.ofList name) (Expr.ofText e)
    | _ => .ambiguous
  else if _h : '+' ∈ t then
    .chain .add (.const (.int 0)) ((pieces '+' t).attach.map fun ⟨p, _⟩ => Expr.ofText p)
  else if _h : '-' ∈ t then
    .chainFirst .sub ((pieces '-' t).attach.map fun ⟨p, _⟩ => Expr.ofText p)
  else if _h : '*' ∈ t then
    .chain .mul (.const (.int 1)) ((pieces '*' t).attach.map fun ⟨p, _⟩ => Expr.ofText p)
  else if _h : '/' ∈ t then
    .chainFirst .div ((pieces '/' t).attach.map fun ⟨p, _⟩ => Expr.ofText p)
  else .ofAtom t
termination_by s.length
decreasing_by
  all_goals have ht : t.length ≤ s.length := length_trim_le s
  · have : (t.dropWhile isArrowChar).length < t.length := length_dropWhile_arrow _hr
    exact Nat.lt_of_lt_of_le this ht
  · have hm : e ∈ pieces '=' t := by rw [_hp]; simp
    have := length_lt_of_mem_pieces _he hm
    omega
  all_goals
    rename_i hp
    have := length_lt_of_mem_pieces _h hp
    omega

end DronePilot.Plan
