import DronePilot.Document

/-!
# Boxes

A box is given by two opposite corners.  Its numbers come from outside: they may be whole numbers or
doubles, and a box may lack some of them.
-/

namespace DronePilot.Vision

/-- The larger of two numbers, the first of them when neither is. -/
def larger (a b : Number) : Number :=
  if a.less b then b else a

/-- The smaller of two numbers, the first of them when neither is. -/
def smaller (a b : Number) : Number :=
  if b.less a then b else a

/-- A number in a field of a document. -/
def numberField (key : String) (d : Document) : Except Fault Number := do
  let d ← d.field key
  let v ← d.toValue
  v.toNumber

/-- The numbers in two fields of a document.  Both fields are looked up before either is looked
at. -/
def numberFields (first second : String) (d : Document) : Except Fault (Number × Number) := do
  let a ← d.field first
  let b ← d.field second
  let a ← a.toValue
  let b ← b.toValue
  let a ← a.toNumber
  let b ← b.toNumber
  pure (a, b)

/-- The number half-way between two numbers. -/
def midpoint (a b : Number) : Except Fault Number := do
  let sum ← Operator.add.onNumbers a b
  Operator.div.onNumbers sum (.int 2)

/-- How far the second of two numbers lies beyond the first. -/
def extent (a b : Number) : Except Fault Number :=
  Operator.sub.onNumbers b a

/-- Two opposite corners. -/
structure Box where
  x1 : Number
  y1 : Number
  x2 : Number
  y2 : Number
deriving Repr

/-- The box that a document describes. -/
def Box.ofDocument (d : Document) : Except Fault Box := do
  let x1 ← numberField "x1" d
  let y1 ← numberField "y1" d
  let x2 ← numberField "x2" d
  let y2 ← numberField "y2" d
  pure { x1 := x1, y1 := y1, x2 := x2, y2 := y2 }

/-- The area between the corners. -/
def Box.area (b : Box) : Except Fault Number := do
  let width ← extent b.x1 b.x2
  let height ← extent b.y1 b.y2
  Operator.mul.onNumbers width height

/-- The length of an overlap: none if its end lies before its start. -/
def overlapLength (start stop : Number) : Except Fault Number := do
  let length ← extent start stop
  pure (larger (.int 0) length)

/-- The area that two boxes share. -/
def Box.sharedArea (a b : Box) : Except Fault Number := do
  let width ← overlapLength (larger a.x1 b.x1) (smaller a.x2 b.x2)
  let height ← overlapLength (larger a.y1 b.y1) (smaller a.y2 b.y2)
  Operator.mul.onNumbers width height

/-- The share of the area of two boxes together that they have in common. -/
def Box.overlap (a b : Box) : Except Fault Float := do
  let shared ← a.sharedArea b
  let first ← a.area
  let second ← b.area
  let sum ← Operator.add.onNumbers first second
  let total ← Operator.sub.onNumbers sum shared
  let x ← total.toFloat
  let y ← shared.toFloat
  divideFloat y x

/-- The size from which on a double has a square that is out of range: two to the power of 512. -/
def squareLimit : Float := 1.3407807929942597e154

/-- The square of a double, which has to stay in range. -/
def square (x : Float) : Except Fault Float :=
  if x.isFinite && squareLimit ≤ x.abs then .error .tooLarge else .ok (Float.pow x 2)

/-- The distance between two points. -/
def pointDistance (x y x' y' : Float) : Except Fault Float := do
  let dx ← square (x - x')
  let dy ← square (y - y')
  pure (Float.sqrt (dx + dy))

/-- The middle of a box. -/
def Box.centre (b : Box) : Except Fault (Float × Float) := do
  let x ← midpoint b.x1 b.x2
  let y ← midpoint b.y1 b.y2
  let x ← x.toFloat
  let y ← y.toFloat
  pure (x, y)

/-- The distance between the middles of two boxes. -/
def Box.distance (a b : Box) : Except Fault Float := do
  let (x, y) ← a.centre
  let (x', y') ← b.centre
  pointDistance x y x' y'

end DronePilot.Vision
