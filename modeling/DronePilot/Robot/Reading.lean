import DronePilot.Value.Order

/-!
# Repairing rows of readings

A distance sensor marks a reading that failed by a negative number.  A failed reading is repaired
from the nearest good readings on either side: by their average, by the only one there is, or by zero
if the row has none.  Repairs are made from left to right, so a repaired reading counts as the
nearest good one for the readings after it.

The repair is the same for every kind of number; what differs is how two readings are averaged.
A row can be repaired as a whole (`Gauge.repair`), or reading by reading where it lies
(`Gauge.mend`): then it matters whether somebody else holds the same row.
-/

namespace DronePilot.Robot

/-- What repairing needs to know about the readings. -/
structure Gauge (α : Type) where
  /-- The reading failed. -/
  failed : α → Bool
  /-- The reading can be used to repair others. -/
  good : α → Bool
  average : α → α → Except Fault α
  zero : α

variable {α : Type}

/-- The repaired value of a failed reading between the nearest good ones. -/
def Gauge.fill (g : Gauge α) : Option α → Option α → Except Fault α
  | some a, some b => g.average a b
  | some a, none => .ok a
  | none, some b => .ok b
  | none, none => .ok g.zero

/-- Repairs the rest of a row, given the readings before it, nearest first. -/
def Gauge.repairFrom (g : Gauge α) (before : List α) : List α → Except Fault (List α)
  | [] => .ok []
  | x :: rest => do
    let y ← if g.failed x then g.fill (before.find? g.good) (rest.find? g.good) else pure x
    let more ← g.repairFrom (y :: before) rest
    pure (y :: more)

/-- Repairs a row of readings. -/
def Gauge.repair (g : Gauge α) (row : List α) : Except Fault (List α) :=
  g.repairFrom [] row

/-- A row in hand: the readings as they were handed over and, if they were copied first, the copy that
is worked on. -/
structure Row (α : Type) where
  given : List α
  copy : Option (List α) := none

namespace Row

/-- A row that is copied before it is worked on. -/
def copied (readings : List α) : Row α := { given := readings, copy := some readings }

/-- A row that is worked on where it stands. -/
def inPlace (readings : List α) : Row α := { given := readings }

/-- The readings that are worked on. -/
def readings (r : Row α) : List α := r.copy.getD r.given

/-- The row with other readings in place of those that are worked on. -/
def hold (r : Row α) (readings : List α) : Row α :=
  match r.copy with
  | some _ => { r with copy := some readings }
  | none => { r with given := readings }

end Row

/-- Repairs the reading at a position, if it failed.  The readings before it are repaired already. -/
def Gauge.mendAt (g : Gauge α) (i : Nat) (r : Row α) : Except Fault (Row α) :=
  match r.readings[i]? with
  | none => .ok r
  | some x =>
    if g.failed x then do
      let y ← g.fill ((r.readings.take i).reverse.find? g.good)
        ((r.readings.drop (i + 1)).find? g.good)
      pure (r.hold (r.readings.set i y))
    else pure r

/-- Repairs a number of readings in order, from a position on. -/
def Gauge.mendFrom (g : Gauge α) (i : Nat) : Nat → Row α → Except Fault (Row α)
  | 0, r => .ok r
  | n + 1, r => do
    let r ← g.mendAt i r
    g.mendFrom (i + 1) n r

/-- Repairs a row in hand. -/
def Gauge.mend (g : Gauge α) (r : Row α) : Except Fault (Row α) :=
  g.mendFrom 0 r.readings.length r

/-- Readings of any kind: an average is a double. -/
def numberGauge : Gauge Number :=
  { failed := fun a => a.less (.int 0)
    good := fun a => (Number.int 0).atMost a
    average := fun a b => do
      let sum ← Operator.add.onNumbers a b
      Operator.div.onNumbers sum (.int 2)
    zero := .int 0 }

/-- Readings of 16 bits.  Their sum wraps around, and half of it loses its fraction. -/
def wordGauge : Gauge Int16 :=
  { failed := fun a => a < 0
    good := fun a => 0 ≤ a
    average := fun a b => .ok ((a + b) / 2)
    zero := 0 }

/-- A whole number brought into the range of 64 bits. -/
def wrapLong (n : Int) : Int :=
  Int.bmod n (Binary64.twoTo 64)

/-- Readings of 64 bits.  Their sum wraps around and is halved as a double, which loses its
fraction. -/
def longGauge : Gauge Int :=
  { failed := fun a => a < 0
    good := fun a => 0 ≤ a
    average := fun a b => do
      let half ← divideInt (wrapLong (a + b)) 2
      (Value.float half).toWhole
    zero := 0 }

/-- Readings that are doubles. -/
def doubleGauge : Gauge Float :=
  { failed := fun a => a < 0
    good := fun a => 0 ≤ a
    average := fun a b => .ok ((a + b) / 2)
    zero := 0 }

/-- The least of some readings. -/
def least : List Int16 → Option Int16
  | [] => none
  | x :: rest => some (rest.foldl (fun a b => if b < a then b else a) x)

/-- The greatest of some readings. -/
def greatest : List Int16 → Option Int16
  | [] => none
  | x :: rest => some (rest.foldl (fun a b => if a < b then b else a) x)

end DronePilot.Robot
