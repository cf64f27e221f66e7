import DronePilot.Decimal.Binary64

/-!
# The fewest digits that read back

A double is written with the fewest decimal digits that no other double is nearer to.  The reals
that round to a double form an interval around it, which contains its ends exactly when the
mantissa is even.  For one digit, two digits and so on, the two neighbours of the value on that
decimal grid are tried; the first grid with a neighbour inside the interval gives the digits.
-/

namespace DronePilot.Decimal

open DronePilot.Binary64

/-- A positive decimal number `0.d₁d₂… * 10 ^ point`. -/
structure Digits where
  digits : List Nat
  point : Int
deriving Repr, DecidableEq

/-- The decimal digits of a number, most significant first. -/
def digitsOf (n : Nat) : List Nat :=
  (Nat.toDigits 10 n).map fun c => c.toNat - 48

/-- Drops the zeros at the end. -/
def dropTrailingZeros (ds : List Nat) : List Nat :=
  (ds.reverse.dropWhile (· == 0)).reverse

/-- `num / den` divided by `10 ^ k`, as a fraction. -/
def scaleDown (num den : Nat) (k : Int) : Nat × Nat :=
  if 0 ≤ k then (num, den * tenTo k.toNat) else (num * tenTo (-k).toNat, den)

/-- The power of ten of the first digit of a positive fraction: the `p` with
`10 ^ p ≤ num / den < 10 ^ (p + 1)`. -/
def leadingPower (num den : Nat) : Int :=
  let guess : Int := ((Nat.log2 num : Int) - (Nat.log2 den : Int)) * 30103 / 100000
  let atLeast (p : Int) : Bool := let (n, d) := scaleDown num den p; d ≤ n
  if atLeast (guess + 1) then guess + 1
  else if atLeast guess then guess
  else if atLeast (guess - 1) then guess - 1
  else guess - 2

/-- The value of a double and the ends of its rounding interval, over one denominator. -/
structure Interval where
  low : Nat
  value : Nat
  high : Nat
  den : Nat
  closed : Bool

/-- The reals that round to the double `p`.  The gap below a power of two is half as wide. -/
def intervalOf (p : Parts) : Interval :=
  let narrow : Bool := p.mantissa == twoTo 52 && p.exponent != -1074
  let below := if narrow then 1 else 2
  let e := p.exponent - 2
  let (unit, den) := if 0 ≤ e then (twoTo e.toNat, 1) else (1, twoTo (-e).toNat)
  { low := (4 * p.mantissa - below) * unit
    value := 4 * p.mantissa * unit
    high := (4 * p.mantissa + 2) * unit
    den := den
    closed := p.mantissa % 2 == 0 }

/-- Whether the grid point `n * 10 ^ k` lies in the interval. -/
def Interval.holds (i : Interval) (n : Nat) (k : Int) : Bool :=
  let (lhs, scale) := if 0 ≤ k then (n * tenTo k.toNat * i.den, 1) else (n * i.den, tenTo (-k).toNat)
  if i.closed then i.low * scale ≤ lhs && lhs ≤ i.high * scale
  else i.low * scale < lhs && lhs < i.high * scale

/-- The neighbour of the value on the grid of step `10 ^ k` that lies in the interval; of two, the
nearer one, and the even one of two equally near. -/
def Interval.gridPoint? (i : Interval) (k : Int) : Option Nat :=
  let (num, den) := scaleDown i.value i.den k
  let below := num / den
  match i.holds below k, i.holds (below + 1) k with
  | true, true => some (roundDiv num den)
  | true, false => some below
  | false, true => some (below + 1)
  | false, false => none

/-- Tries grids with more and more digits. -/
def Interval.search (i : Interval) (lead : Int) : Nat → Nat → Nat × Int
  | 0, digits => (roundDiv i.value i.den, lead + 1 - digits)
  | tries + 1, digits =>
    let k := lead + 1 - (digits : Int)
    match i.gridPoint? k with
    | some n => if n = 0 then i.search lead tries (digits + 1) else (n, k)
    | none => i.search lead tries (digits + 1)

/-- The fewest digits that read back as the double with these parts; the mantissa is not zero. -/
def shortest (p : Parts) : Digits :=
  let i := intervalOf p
  let (n, k) := i.search (leadingPower i.value i.den) 17 1
  let ds := digitsOf n
  { digits := dropTrailingZeros ds, point := (ds.length : Int) + k }

end DronePilot.Decimal
