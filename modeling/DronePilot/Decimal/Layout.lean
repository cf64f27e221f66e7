import DronePilot.Decimal.Shortest

/-!
# Writing doubles

How the digits of a double are laid out: positionally in the middle range of magnitudes and with an
exponent outside it, and with a fixed number of places where a report asks for that.
-/

namespace DronePilot.Decimal

open DronePilot.Binary64

/-- The decisions of a way to write doubles. -/
structure Layout where
  /-- Positional notation is used while the point stands after more than this many places. -/
  leastPoint : Int
  /-- Positional notation is used while the point stands after at most this many places. -/
  greatestPoint : Int
  /-- The least number of digits in an exponent. -/
  exponentWidth : Nat
  nan : String
  infinity : String

/-- Values are written positionally from `1e-4` to below `1e16`. -/
def plain : Layout :=
  { leastPoint := -4, greatestPoint := 16, exponentWidth := 2, nan := "nan", infinity := "inf" }

/-- Documents write the same digits and spell out what is not finite. -/
def document : Layout :=
  { plain with nan := "NaN", infinity := "Infinity" }

/-- The character of a decimal digit. -/
def digitChar (d : Nat) : Char :=
  Nat.digitChar d

/-- Digits as text. -/
def digitText (ds : List Nat) : String :=
  String.ofList (ds.map digitChar)

/-- A number written with at least `width` digits. -/
def padded (width n : Nat) : String :=
  let ds := Nat.toDigits 10 n
  String.ofList (List.replicate (width - ds.length) '0' ++ ds)

/-- The digits around a decimal point, with a zero on a side that would be empty. -/
def positional (d : Digits) : String :=
  if d.point ≤ 0 then
    "0." ++ digitText (List.replicate (-d.point).toNat 0 ++ d.digits)
  else
    let whole := d.digits.take d.point.toNat
    let rest := d.digits.drop d.point.toNat
    let whole := whole ++ List.replicate (d.point.toNat - whole.length) 0
    digitText whole ++ "." ++ (if rest.isEmpty then "0" else digitText rest)

/-- One digit before the point and an exponent. -/
def scientific (layout : Layout) (d : Digits) : String :=
  let head := digitText (d.digits.take 1)
  let rest := d.digits.drop 1
  let mantissa := if rest.isEmpty then head else head ++ "." ++ digitText rest
  let e := d.point - 1
  mantissa ++ (if e < 0 then "e-" else "e+") ++ padded layout.exponentWidth e.natAbs

/-- A double with the fewest digits that read back. -/
def Layout.write (layout : Layout) (x : Float) : String :=
  match parts? x with
  | none =>
    if x.isNaN then layout.nan
    else if isNegative x then "-" ++ layout.infinity
    else layout.infinity
  | some p =>
    let magnitude :=
      if p.mantissa = 0 then "0.0"
      else
        let d := shortest p
        if layout.leastPoint < d.point && d.point ≤ layout.greatestPoint then positional d
        else scientific layout d
    if p.negative then "-" ++ magnitude else magnitude

/-- The magnitude of a double in units of the last of `places` decimal places. -/
def unitsAt (places : Nat) (p : Parts) : Nat :=
  let (num, den) := p.fraction
  roundDiv (num * tenTo places) den

/-- A double with a fixed number of places, at least one. -/
def fixed (places : Nat) (x : Float) : String :=
  match parts? x with
  | none => if x.isNaN then "nan" else if isNegative x then "-inf" else "inf"
  | some p =>
    let units := unitsAt places p
    let magnitude := toString (units / tenTo places) ++ "." ++ padded places (units % tenTo places)
    if p.negative then "-" ++ magnitude else magnitude

/-- The double nearest to a double rounded to a number of decimal places. -/
def roundTo (places : Nat) (x : Float) : Float :=
  match parts? x with
  | none => x
  | some p => ofRatio p.negative (unitsAt places p) (tenTo places)

end DronePilot.Decimal
