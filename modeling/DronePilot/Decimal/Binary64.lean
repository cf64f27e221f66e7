/-!
# Double-precision numbers as exact fractions

A finite double is a whole number of at most 53 bits times a power of two.  This module takes a
double apart into that form and builds the double nearest to a given fraction, the even one of two
equally near.  All arithmetic is on natural numbers, so that conversions between whole numbers,
decimals and doubles never pass through an approximation.
-/

namespace DronePilot.Binary64

/-- A power of two. -/
def twoTo (n : Nat) : Nat := Nat.pow 2 n

/-- A power of ten. -/
def tenTo (n : Nat) : Nat := Nat.pow 10 n

/-- The parts of a finite double: its sign and the magnitude `mantissa * 2 ^ exponent`. -/
structure Parts where
  negative : Bool
  mantissa : Nat
  exponent : Int
deriving Repr, DecidableEq

/-- The sign bit of a double. -/
def isNegative (x : Float) : Bool :=
  x.toBits.toNat ≥ twoTo 63

/-- Takes a double apart; infinities and the not-a-numbers have no parts. -/
def parts? (x : Float) : Option Parts :=
  let bits : Nat := x.toBits.toNat % twoTo 63
  let biased : Nat := bits / twoTo 52
  let fraction : Nat := bits % twoTo 52
  if biased = 2047 then none
  else if biased = 0 then some ⟨isNegative x, fraction, -1074⟩
  else some ⟨isNegative x, fraction + twoTo 52, (biased : Int) - 1075⟩

/-- The magnitude as a fraction of natural numbers. -/
def Parts.fraction (p : Parts) : Nat × Nat :=
  if 0 ≤ p.exponent then (p.mantissa * twoTo p.exponent.toNat, 1)
  else (p.mantissa, twoTo (-p.exponent).toNat)

/-- The quotient rounded to the nearest whole number, a half going to the even one. -/
def roundDiv (num den : Nat) : Nat :=
  let q := num / den
  let r := num % den
  if 2 * r < den then q
  else if den < 2 * r then q + 1
  else if q % 2 = 0 then q
  else q + 1

/-- The double with the given sign and the given bits below it; bits beyond the largest finite
magnitude stand for infinity. -/
def ofMagnitude (negative : Bool) (bits : Nat) : Float :=
  let bits := min bits (2047 * twoTo 52)
  Float.ofBits (UInt64.ofNat (if negative then twoTo 63 + bits else bits))

/-- The exponent that gives the quotient of two positive numbers a mantissa of 53 bits, or the
least exponent of a double if that is larger. -/
def exponentFor (num den : Nat) : Int :=
  let guess : Int := (Nat.log2 num : Int) - (Nat.log2 den : Int) - 52
  let tooWide : Bool :=
    if 0 ≤ guess then twoTo 53 * (den * twoTo guess.toNat) ≤ num
    else twoTo 53 * den ≤ num * twoTo (-guess).toNat
  let tooNarrow : Bool :=
    if 0 ≤ guess then num < twoTo 52 * (den * twoTo guess.toNat)
    else num * twoTo (-guess).toNat < twoTo 52 * den
  let exact := if tooWide then guess + 1 else if tooNarrow then guess - 1 else guess
  max exact (-1074)

/-- The double nearest to `num / den`, ties to even, with the given sign; infinity if the fraction
is too large. -/
def ofRatio (negative : Bool) (num den : Nat) : Float :=
  if num = 0 then ofMagnitude negative 0
  else
    let e := exponentFor num den
    let mantissa :=
      if 0 ≤ e then roundDiv num (den * twoTo e.toNat) else roundDiv (num * twoTo (-e).toNat) den
    ofMagnitude negative ((e + 1074).toNat * twoTo 52 + mantissa)

/-- The double nearest to a whole number, or nothing if it is too large for one. -/
def ofInt? (n : Int) : Option Float :=
  let x := ofRatio (n < 0) n.natAbs 1
  if x.isFinite then some x else none

/-- The double nearest to a quotient of whole numbers, the divisor not being zero; nothing if it is
too large for one.  The quotient is negative when exactly one of the two is. -/
def ofQuotient? (a b : Int) : Option Float :=
  let x := ofRatio ((a < 0) != (b < 0)) a.natAbs b.natAbs
  if x.isFinite then some x else none

/-- The whole number nearest to zero from a finite double. -/
def truncate? (x : Float) : Option Int :=
  (parts? x).map fun p =>
    let (num, den) := p.fraction
    let n : Int := (num / den : Nat)
    if p.negative then -n else n

/-- The whole number that a finite double is, if it is one. -/
def wholeValue? (x : Float) : Option Int :=
  (parts? x).bind fun p =>
    let (num, den) := p.fraction
    if num % den = 0 then truncate? x else none

end DronePilot.Binary64
