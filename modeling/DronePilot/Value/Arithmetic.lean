import DronePilot.Fault

/-!
# Arithmetic and comparison of values

Truth values count as zero and one.  Whole numbers stay whole under addition, subtraction and
multiplication and become doubles under division; a double on either side makes the result a
double.  A whole number times a text repeats the text.  Values are compared within one kind only,
except that a whole number is compared with a double as a double.
-/

namespace DronePilot

/-- The arithmetic operators of plans. -/
inductive Operator where
  | add
  | sub
  | mul
  | div
deriving Repr, DecidableEq

/-- The comparators of conditions. -/
inductive Comparator where
  | greater
  | less
  | equal
  | unequal
deriving Repr, DecidableEq

/-- A value taken as a number. -/
inductive Number where
  | int (n : Int)
  | float (x : Float)
deriving Repr, Inhabited

/-- Truth values count as zero and one; nothing and text are no numbers. -/
def Value.number? : Value → Option Number
  | .bool b => some (.int (if b then 1 else 0))
  | .int n => some (.int n)
  | .float x => some (.float x)
  | .nothing | .text _ => none

/-- A number as a double, unless it is too large. -/
def Number.toFloat : Number → Except Fault Float
  | .int n =>
    match Binary64.ofInt? n with
    | some x => .ok x
    | none => .error .tooLarge
  | .float x => .ok x

/-- A number as a value. -/
def Number.toValue : Number → Value
  | .int n => .int n
  | .float x => .float x

/-- Division of doubles refuses a zero divisor. -/
def divideFloat (x y : Float) : Except Fault Float :=
  if y == 0 then .error .divisionByZero else .ok (x / y)

/-- Division of whole numbers gives the nearest double. -/
def divideInt (a b : Int) : Except Fault Float :=
  if b = 0 then .error .divisionByZero
  else
    match Binary64.ofQuotient? a b with
    | some x => .ok x
    | none => .error .tooLarge

/-- An operator on whole numbers. -/
def Operator.onInts : Operator → Int → Int → Except Fault Number
  | add, a, b => .ok (.int (a + b))
  | sub, a, b => .ok (.int (a - b))
  | mul, a, b => .ok (.int (a * b))
  | div, a, b => Number.float <$> divideInt a b

/-- An operator on doubles. -/
def Operator.onFloats : Operator → Float → Float → Except Fault Number
  | add, x, y => .ok (.float (x + y))
  | sub, x, y => .ok (.float (x - y))
  | mul, x, y => .ok (.float (x * y))
  | div, x, y => Number.float <$> divideFloat x y

/-- An operator on numbers. -/
def Operator.onNumbers (op : Operator) : Number → Number → Except Fault Number
  | .int a, .int b => op.onInts a b
  | a, b => do
    let x ← a.toFloat
    let y ← b.toFloat
    op.onFloats x y

/-- One more than the largest count. -/
def countLimit : Int := Binary64.twoTo 63

/-- The length from which on there is no room for a text.  The program sets no such limit: it stands
for the memory of the machine that runs the program. -/
def textLimit : Int := Binary64.twoTo 32

/-- A text written a number of times over.  The number has to be a machine word, and so does the
length of the result, for which there has to be room. -/
def repeatText (s : String) (n : Int) : Except Fault Value :=
  let length : Int := s.length * n
  if n < -countLimit || countLimit ≤ n || countLimit ≤ length then .error .tooLarge
  else if textLimit ≤ length then .error .noRoom
  else if s.isEmpty then .ok (.text s)
  else .ok (.text (String.join (List.replicate n.toNat s)))

/-- An operator on values of any kind. -/
def Operator.apply (op : Operator) (left right : Value) : Except Fault Value :=
  match left.number?, right.number?, op, left, right with
  | some a, some b, op, _, _ => Number.toValue <$> op.onNumbers a b
  | some (.int n), none, .mul, _, .text s => repeatText s n
  | none, some (.int n), .mul, .text s, _ => repeatText s n
  | _, _, _, _, _ => .error .wrongKind

/-- The outcome of a comparison from equality and order. -/
def Comparator.decide (c : Comparator) (eq lt gt : Bool) : Bool :=
  match c with
  | greater => gt
  | less => lt
  | equal => eq
  | unequal => !eq

/-- A whole number beside a double becomes a double. -/
def alignNumbers : Value → Value → Except Fault (Value × Value)
  | .int n, .float y => do
    let x ← (Number.int n).toFloat
    pure (.float x, .float y)
  | .float x, .int n => do
    let y ← (Number.int n).toFloat
    pure (.float x, .float y)
  | a, b => .ok (a, b)

/-- A comparison of values of one kind. -/
def Comparator.onKind (c : Comparator) : Value → Value → Except Fault Bool
  | .bool a, .bool b => .ok (c.decide (a == b) (!a && b) (a && !b))
  | .int a, .int b => .ok (c.decide (a == b) (a < b) (b < a))
  | .float x, .float y => .ok (c.decide (x == y) (x < y) (y < x))
  | .text s, .text t => .ok (c.decide (s == t) (s < t) (t < s))
  | .nothing, .nothing =>
    match c with
    | greater | less => .error .wrongKind
    | equal => .ok true
    | unequal => .ok false
  | a, b => .error (.incomparable a b)

/-- A comparison of any two values.  Values of different kinds are unequal and have no order. -/
def Comparator.holds (c : Comparator) (left right : Value) : Except Fault Bool := do
  let (a, b) ← alignNumbers left right
  if a.kind = b.kind then c.onKind a b
  else
    match c with
    | unequal => .ok true
    | equal => .ok false
    | greater | less => .error (.incomparable a b)

/-- The whole number that a value stands for. -/
def Value.toWhole : Value → Except Fault Int
  | .bool b => .ok (if b then 1 else 0)
  | .int n => .ok n
  | .float x =>
    match Binary64.truncate? x with
    | some n => .ok n
    | none => if x.isNaN then .error .unreadableNumber else .error .tooLarge
  | .text _ | .nothing => .error .wrongKind

end DronePilot
