import DronePilot.Decimal.Numeral
import DronePilot.Value.Arithmetic

/-!
# The order of numbers

Whole numbers and doubles are ordered by what they are worth, without rounding either.  A
not-a-number is neither less than, equal to nor greater than anything.
-/

namespace DronePilot

/-- How a whole number compares with a double. -/
def compareWithDouble (n : Int) (x : Float) : Option Ordering :=
  match Binary64.parts? x with
  | none => if x.isNaN then none else if Binary64.isNegative x then some .gt else some .lt
  | some p =>
    let (num, den) := p.fraction
    let scaled : Int := if p.negative then -(num : Int) else num
    some (compare (n * den) scaled)

/-- How two numbers compare. -/
def Number.order? : Number → Number → Option Ordering
  | .int m, .int n => some (compare m n)
  | .int n, .float x => compareWithDouble n x
  | .float x, .int n => (compareWithDouble n x).map Ordering.swap
  | .float x, .float y =>
    if x < y then some .lt else if x == y then some .eq else if y < x then some .gt else none

/-- Whether a number is less than another. -/
def Number.less (a b : Number) : Bool :=
  a.order? b == some .lt

/-- Whether two numbers are worth the same. -/
def Number.equal (a b : Number) : Bool :=
  a.order? b == some .eq

/-- Whether a number is at most another. -/
def Number.atMost (a b : Number) : Bool :=
  a.less b || a.equal b

/-- The number that a value is. -/
def Value.toNumber (v : Value) : Except Fault Number :=
  match v.number? with
  | some n => .ok n
  | none => .error .wrongKind

/-- Whether a value is worth less than a whole number. -/
def Value.isBelow (v : Value) (n : Int) : Except Fault Bool := do
  let a ← v.toNumber
  pure (a.less (.int n))

/-- Whether a value is worth more than a whole number. -/
def Value.isAbove (v : Value) (n : Int) : Except Fault Bool := do
  let a ← v.toNumber
  pure ((Number.int n).less a)

/-- Whether two values are the same to a comparison: numbers by what they are worth. -/
def Value.same (a b : Value) : Bool :=
  match a.number?, b.number? with
  | some m, some n => m.equal n
  | _, _ => a == b

/-- The double that a value stands for; a text is read as one. -/
def Value.toReal : Value → Except Fault Float
  | .text s =>
    match Decimal.readReal s.toList with
    | some x => .ok x
    | none => .error .unreadableNumber
  | v => do
    let n ← v.toNumber
    n.toFloat

end DronePilot
