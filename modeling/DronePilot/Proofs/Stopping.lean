import DronePilot.Proofs.Maneuver
import DronePilot.Proofs.Mending
import DronePilot.Proofs.Numeral
import DronePilot.Robot.Gear

/-!
# Coming to a stop

The car keeps a speed until it is given another, so what matters about a drive is its last command.
Driving blindly and turning end with the command to stop.  A drive forward with open eyes is a
sequence of rounds, each of which looks, perhaps backs off, and follows the advice of the steering
network.  The rounds thread one thing besides the car: the sideways speed, which a round takes over
from the one before when its sides do not decide it.  At first there is none to take over.

`exec_watchfulRounds_none` follows the rounds up to the first whose sides decide; from there on
`exec_watchfulRounds_some` applies.  Nothing before the first decision moves the car for good, since
going straight on is what needs the sideways speed.
-/

namespace DronePilot.Robot.Gear

open Maneuver DronePilot.Vision

/-! ### Drives that end with the command to stop -/

/-- The last command that was sent is the command to stop. -/
def Halted (c : Course Gear Command) : Prop := c.commands.getLast? = some .stop

/-- The maneuver comes to its end, with the car as it was and the command to stop sent last. -/
def ComesToStop (x : Act Result) : Prop :=
  ∀ c, ∃ c', x.exec c = (.ok (done false), c') ∧ c'.robot = c.robot ∧ Halted c'

/-- After the command to stop, the car is halted. -/
theorem halted_of_stop (c : Course Gear Command) :
    Halted { c with deeds := c.deeds ++ [.send .stop] } := by
  simp [Halted, Course.commands, Deed.command?]

/-- Repeating a round comes to its end with the car as it was. -/
theorem exec_repeatRound (command : Command) (n : Nat) (c : Course Gear Command) :
    ∃ deeds, (repeatRound command n).exec c = (.ok (), { c with deeds := deeds }) := by
  induction n generalizing c with
  | zero => exact ⟨c.deeds, rfl⟩
  | succ n ih =>
      rw [repeatRound, exec_bind_ok (exec_send command c), exec_bind_ok (exec_wait rfl _)]
      exact ih _

/-- A drive of any number of rounds ends with the command to stop. -/
theorem drive_comesToStop (command : Command) (n : Nat) : ComesToStop (drive command n) := by
  intro c
  rw [drive, exec_bind_ok (exec_send .stop c)]
  obtain ⟨deeds, hrounds⟩ := exec_repeatRound command n { c with deeds := c.deeds ++ [.send .stop] }
  rw [exec_bind_ok hrounds, exec_bind_ok (exec_send Command.stop _)]
  exact ⟨_, rfl, rfl, halted_of_stop _⟩

/-- So does a blind drive over a distance that can be told. -/
theorem driveBlind_comesToStop (d : Direction) (distance : Int)
    (h : (Value.int distance).isWritable = true) (ahead sideways : Float) :
    ComesToStop (driveBlind d (.int distance) ahead sideways) := by
  intro c
  rw [driveBlind, moveLine_of_isWritable h, exec_bind_ok (exec_lift_ok _ c),
    exec_bind_ok (exec_say _ c)]
  exact drive_comesToStop
    (.hover (if ahead == 0 then .int 0 else .float ahead)
      (if sideways == 0 then .int 0 else .float sideways) (.int 0))
    (rounds (.int distance)) _

/-- So does a turn by as much as the network advises. -/
theorem turn_comesToStop (t : Turn) : ComesToStop (turn t (.int adviceTurn)) := by
  intro c
  have hsigned : ∃ v, signedTurn t (.int adviceTurn) = .ok v := by
    cases t with
    | clockwise => exact ⟨.int (-30), rfl⟩
    | counterclockwise => exact ⟨.int 30, rfl⟩
  have htime : turnTime (.int adviceTurn) = .ok (.float 1.6) := rfl
  obtain ⟨line, hline⟩ : ∃ line, turnLine t (.int adviceTurn) = .ok line := ⟨_, rfl⟩
  obtain ⟨v, hv⟩ := hsigned
  rw [turn, hline, exec_bind_ok (exec_lift_ok _ c), exec_bind_ok (exec_say _ c),
    exec_bind_ok (exec_send _ _), hv, exec_bind_ok (exec_lift_ok v _),
    exec_bind_ok (exec_send _ _), htime,
    exec_bind_ok (exec_lift_ok _ _), exec_bind_ok (exec_wait rfl _), exec_bind_ok (exec_send _ _)]
  exact ⟨_, rfl, rfl, halted_of_stop _⟩

/-! ### What the car sees -/

/-- A row of readings, repaired. -/
def mended (row : List Int16) : List Int16 :=
  match wordGauge.repair row with
  | .ok repaired => repaired
  | .error _ => row

/-- Repairing a row of readings never fails. -/
theorem repair_eq_mended (row : List Int16) : wordGauge.repair row = .ok (mended row) := by
  obtain ⟨repaired, hrepair, -⟩ := exists_repairFrom_words [] row
  rw [mended, Gauge.repair, hrepair]

/-- A row with readings still has some when it is repaired. -/
theorem mended_ne_nil {row : List Int16} (h : row ≠ []) : mended row ≠ [] := by
  obtain ⟨repaired, hrepair, hlength⟩ := exists_repairFrom_words [] row
  have hmended : mended row = repaired := by rw [mended, Gauge.repair, hrepair]
  rw [hmended, ← List.length_pos_iff, hlength]
  exact List.length_pos_iff.mpr h

/-- The map that the car looks at next. -/
def nextMap (g : Gear) : DepthMap := (g.deliveries g.looks).getD g.depth

/-- A row of the map that the car looks at next, repaired. -/
def nextRow (g : Gear) (i : Nat) : List Int16 := mended ((g.nextMap[i]?).getD [])

/-- The car when it has looked once more. -/
def looked (g : Gear) : Gear :=
  { g with
    depth := ((g.nextMap.set leftRow (g.nextRow leftRow)).set frontRow (g.nextRow frontRow)).set
      rightRow (g.nextRow rightRow)
    looks := g.looks + 1 }

/-- The car a round later: it has looked and been advised once more. -/
def next (g : Gear) : Gear := { g.looked with advice := g.advice.advance }

/-- The car some rounds later. -/
def later (g : Gear) : Nat → Gear
  | 0 => g
  | n + 1 => g.next.later n

/-- A map has readings to the left, in front and to the right. -/
def Legible (m : DepthMap) : Prop :=
  ∀ i ∈ [leftRow, frontRow, rightRow], ∃ row, m[i]? = some row ∧ row ≠ []

/-- The map that the car holds and all that are delivered have readings. -/
structure Sighted (g : Gear) : Prop where
  held : Legible g.depth
  delivered : ∀ n m, g.deliveries n = some m → Legible m

/-- A car that is sighted has readings to look at next. -/
theorem Sighted.legible {g : Gear} (h : g.Sighted) : Legible g.nextMap := by
  unfold nextMap
  cases hm : g.deliveries g.looks with
  | none => exact h.held
  | some m => exact h.delivered _ m hm

/-- The rows that it looks at next are not empty. -/
theorem nextRow_ne_nil {g : Gear} (h : g.Sighted) {i : Nat}
    (hi : i ∈ [leftRow, frontRow, rightRow]) : g.nextRow i ≠ [] := by
  obtain ⟨row, hrow, hsome⟩ := h.legible i hi
  rw [nextRow, hrow]
  exact mended_ne_nil hsome

/-- It is still sighted a round later. -/
theorem Sighted.next {g : Gear} (h : g.Sighted) : g.next.Sighted := by
  refine ⟨fun i hi => ?_, h.delivered⟩
  obtain ⟨row, hrow, -⟩ := h.legible i hi
  have hlength : i < g.nextMap.length := (List.getElem?_eq_some_iff.mp hrow).1
  refine ⟨g.nextRow i, ?_, nextRow_ne_nil h hi⟩
  simp only [List.mem_cons, List.not_mem_nil, or_false] at hi
  rcases hi with rfl | rfl | rfl
  · simp only [Gear.next, looked]
    rw [List.getElem?_set_ne (by decide), List.getElem?_set_ne (by decide),
      List.getElem?_set_self hlength]
  · simp only [Gear.next, looked]
    rw [List.getElem?_set_ne (by decide), List.getElem?_set_self (by simpa using hlength)]
  · exact List.getElem?_set_self (by simpa using hlength)

/-- Taking a row repairs it in the map. -/
theorem exec_takeRow {i : Nat} {row : List Int16} {c : Course Gear Command}
    (h : c.robot.depth[i]? = some row) :
    (takeRow i).exec c =
      (.ok (mended row),
        { c with robot := { c.robot with depth := c.robot.depth.set i (mended row) } }) := by
  rw [takeRow, exec_bind_ok (exec_robot c), h]
  simp only [repair_eq_mended]
  rw [exec_bind_ok (exec_lift_ok _ _), exec_bind_ok (exec_update _ _)]
  rfl

/-- Looking takes the three rows from the next map. -/
theorem exec_look {c : Course Gear Command} (h : c.robot.Sighted) :
    look.exec c =
      (.ok { left := c.robot.nextRow leftRow, front := c.robot.nextRow frontRow,
             right := c.robot.nextRow rightRow }, { c with robot := c.robot.looked }) := by
  obtain ⟨left, hleft, -⟩ := h.legible leftRow (by simp)
  obtain ⟨front, hfront, -⟩ := h.legible frontRow (by simp)
  obtain ⟨right, hright, -⟩ := h.legible rightRow (by simp)
  have hrow : ∀ {i row}, c.robot.nextMap[i]? = some row → mended row = c.robot.nextRow i := by
    intro i row hrow
    rw [nextRow, hrow, Option.getD_some]
  rw [look, exec_bind_ok (exec_update _ c), exec_bind_ok (exec_takeRow hleft),
    exec_bind_ok (exec_takeRow ((List.getElem?_set_ne (by decide)).trans hfront)),
    exec_bind_ok (exec_takeRow (((List.getElem?_set_ne (by decide)).trans
      (List.getElem?_set_ne (by decide))).trans hright)), hrow hleft, hrow hfront, hrow hright]
  rfl

/-! ### One round -/

/-- What the steering network advises next. -/
def advised (g : Gear) : Advice := .ofOutput (g.advice.current straightOutput)

/-- The least room to the left at the next look. -/
def leftMargin (g : Gear) : Int16 := (least (g.nextRow leftRow)).getD 0

/-- The least room to the right at the next look. -/
def rightMargin (g : Gear) : Int16 := (least (g.nextRow rightRow)).getD 0

/-- The sides do not decide the sideways speed: neither has much room, and they differ little. -/
def Undecided (g : Gear) : Prop :=
  g.leftMargin ≤ 65 ∧ g.rightMargin ≤ 65 ∧ (g.leftMargin - g.rightMargin).abs ≤ 80

instance (g : Gear) : Decidable g.Undecided :=
  inferInstanceAs (Decidable (_ ∧ _ ∧ _))

/-- The margins leave the sideways speed open exactly if both are narrow and nearly the same. -/
theorem sidewaysFor_eq_none_iff (left right : Int16) :
    sidewaysFor left right = none ↔ left ≤ 65 ∧ right ≤ 65 ∧ (left - right).abs ≤ 80 := by
  unfold sidewaysFor
  simp only [sideRoom, sideDifference]
  grind

/-- Follows an advice, with the sideways speed decided so far. -/
def steer (sideways : Option Value) : Advice → Act (Option Value)
  | .straight =>
    match sideways with
    | some v => do
      Maneuver.send (.hover (.float speedAhead) v (.int 0))
      pure sideways
    | none => throw .unsetVariable
  | .counterclockwise => do
    let _ ← turn .counterclockwise (.int adviceTurn)
    pure sideways
  | .clockwise => do
    let _ ← turn .clockwise (.int adviceTurn)
    pure sideways
  | .other => pure sideways

theorem exec_takeAdvice (c : Course Gear Command) :
    takeAdvice.exec c =
      (.ok c.robot.advised,
        { c with robot := { c.robot with advice := c.robot.advice.advance } }) := rfl

/-- A row with readings has a least one. -/
theorem exists_least {row : List Int16} (h : row ≠ []) : ∃ x, least row = some x := by
  cases row with
  | nil => exact absurd rfl h
  | cons x rest => exact ⟨_, rfl⟩

/-- And a greatest one. -/
theorem exists_greatest {row : List Int16} (h : row ≠ []) : ∃ x, greatest row = some x := by
  cases row with
  | nil => exact absurd rfl h
  | cons x rest => exact ⟨_, rfl⟩

/-- A round is a look, after which the car may back off, and then following the advice. -/
theorem exec_watchfulRound {c : Course Gear Command} (h : c.robot.Sighted)
    (sideways : Option Value) :
    ∃ c₁, c₁.robot = c.robot.next ∧ (Halted c → Halted c₁) ∧
      (watchfulRound sideways).exec c =
        (steer ((sidewaysFor c.robot.leftMargin c.robot.rightMargin).or sideways)
          c.robot.advised).exec c₁ := by
  obtain ⟨left, hleft⟩ := exists_least (nextRow_ne_nil h (i := leftRow) (by simp))
  obtain ⟨front, hfront⟩ := exists_greatest (nextRow_ne_nil h (i := frontRow) (by simp))
  obtain ⟨right, hright⟩ := exists_least (nextRow_ne_nil h (i := rightRow) (by simp))
  have hl : c.robot.leftMargin = left := by rw [leftMargin, hleft, Option.getD_some]
  have hr : c.robot.rightMargin = right := by rw [rightMargin, hright, Option.getD_some]
  rw [watchfulRound, exec_bind_ok (exec_look h), hl, hr]
  simp only [hfront, hleft, hright]
  -- Backing off leaves the car stopped, and does not change it.
  have hbacked : ∀ {rest : Act (Option Value)},
      ∃ c₀ : Course Gear Command, c₀.robot = c.robot.looked ∧ (Halted c → Halted c₀) ∧
        (if front < backOffDistance then backward (.int backOffMove) >>= fun _ => rest
          else rest).exec { c with robot := c.robot.looked } = rest.exec c₀ := by
    intro rest
    split
    · obtain ⟨c₀, hbackward, hrobot, hhalted⟩ := driveBlind_comesToStop .backward backOffMove
        rfl (-speedAhead) 0 { c with robot := c.robot.looked }
      exact ⟨c₀, hrobot, fun _ => hhalted, exec_bind_ok hbackward _⟩
    · exact ⟨{ c with robot := c.robot.looked }, rfl, fun hhalted => hhalted, rfl⟩
  obtain ⟨c₀, hrobot, hhalted, hexec⟩ := hbacked
  rw [hexec, exec_bind_ok (exec_takeAdvice c₀)]
  have hadvised : c₀.robot.advised = c.robot.advised := by
    rw [hrobot]
    rfl
  refine ⟨{ c₀ with robot := { c₀.robot with advice := c₀.robot.advice.advance } }, ?_, hhalted, ?_⟩
  · rw [hrobot]
    rfl
  · rw [hadvised]
    cases c.robot.advised with
    | straight => cases (sidewaysFor left right).or sideways <;> rfl
    | clockwise => rfl
    | counterclockwise => rfl
    | other => rfl

/-- Following an advice once a sideways speed is decided. -/
theorem exec_steer_some (v : Value) (advice : Advice) (c : Course Gear Command) :
    ∃ c', (steer (some v) advice).exec c = (.ok (some v), c') ∧ c'.robot = c.robot := by
  cases advice with
  | straight => exact ⟨_, rfl, rfl⟩
  | other => exact ⟨c, rfl, rfl⟩
  | clockwise =>
      obtain ⟨c', hturn, hrobot, -⟩ := turn_comesToStop .clockwise c
      exact ⟨c', exec_bind_ok hturn _, hrobot⟩
  | counterclockwise =>
      obtain ⟨c', hturn, hrobot, -⟩ := turn_comesToStop .counterclockwise c
      exact ⟨c', exec_bind_ok hturn _, hrobot⟩

/-- Following an advice before a sideways speed is decided: going straight on fails, and nothing
else moves the car for good. -/
theorem exec_steer_none {advice : Advice} {c : Course Gear Command} (hhalted : Halted c) :
    (advice = .straight ∧ (steer none advice).exec c = (.error .unsetVariable, c)) ∨
      advice ≠ .straight ∧
        ∃ c', (steer none advice).exec c = (.ok none, c') ∧ c'.robot = c.robot ∧ Halted c' := by
  cases advice with
  | straight => exact .inl ⟨rfl, rfl⟩
  | other => exact .inr ⟨by simp, c, rfl, rfl, hhalted⟩
  | clockwise =>
      obtain ⟨c', hturn, hrobot, hstopped⟩ := turn_comesToStop .clockwise c
      exact .inr ⟨by simp, c', exec_bind_ok hturn _, hrobot, hstopped⟩
  | counterclockwise =>
      obtain ⟨c', hturn, hrobot, hstopped⟩ := turn_comesToStop .counterclockwise c
      exact .inr ⟨by simp, c', exec_bind_ok hturn _, hrobot, hstopped⟩

/-! ### The whole drive -/

/-- A course after the pause that ends a round. -/
def paused (c : Course Gear Command) : Course Gear Command :=
  { c with deeds := c.deeds ++ [.wait roundTime] }

/-- A halted car is still halted after a pause. -/
theorem Halted.paused {c : Course Gear Command} (h : Halted c) : Halted (paused c) := by
  simpa [Gear.paused, Halted, Course.commands, Deed.command?] using h

/-- A round that comes to its end is followed by a pause and the other rounds. -/
theorem exec_watchfulRounds_succ {n : Nat} {sideways decided : Option Value}
    {c c' : Course Gear Command} (h : (watchfulRound sideways).exec c = (.ok decided, c')) :
    (watchfulRounds (n + 1) sideways).exec c = (watchfulRounds n decided).exec (paused c') := by
  rw [watchfulRounds, exec_bind_ok h, exec_bind_ok (exec_wait rfl _), paused]

/-- Once a sideways speed is decided, the drive goes on to its end. -/
theorem exec_watchfulRounds_some {c : Course Gear Command} (h : c.robot.Sighted) (n : Nat)
    (v : Value) : ∃ c', (watchfulRounds n (some v)).exec c = (.ok (), c') := by
  induction n generalizing c v with
  | zero => exact ⟨c, rfl⟩
  | succ n ih =>
      obtain ⟨c₁, hrobot, -, hround⟩ := exec_watchfulRound h (some v)
      have hdecided : ∃ w, (sidewaysFor c.robot.leftMargin c.robot.rightMargin).or (some v) =
          some w := by
        cases sidewaysFor c.robot.leftMargin c.robot.rightMargin with
        | none => exact ⟨v, rfl⟩
        | some w => exact ⟨w, rfl⟩
      obtain ⟨w, hw⟩ := hdecided
      obtain ⟨c₂, hsteer, hrobot'⟩ := exec_steer_some w c.robot.advised c₁
      rw [hw, hsteer] at hround
      have hsame : (paused c₂).robot = c.robot.next := hrobot'.trans hrobot
      rw [exec_watchfulRounds_succ hround]
      exact ih (hsame ▸ h.next) w

/-- **A drive with open eyes**, from a standstill and with the sideways speed undecided: it goes on
to its end, or it breaks off where the car is to go straight on before any sides have decided the
speed.  It then stands still. -/
theorem exec_watchfulRounds_none {c : Course Gear Command} (h : c.robot.Sighted)
    (hhalted : Halted c) (n : Nat) :
    (∃ c', (watchfulRounds n none).exec c = (.ok (), c') ∧
      ∀ i < n, (c.robot.later i).advised = .straight → ∃ j ≤ i, ¬(c.robot.later j).Undecided) ∨
    ∃ c', (watchfulRounds n none).exec c = (.error .unsetVariable, c') ∧ Halted c' ∧
      ∃ i < n, (c.robot.later i).advised = .straight ∧ ∀ j ≤ i, (c.robot.later j).Undecided := by
  induction n generalizing c with
  | zero => exact .inl ⟨c, rfl, by simp⟩
  | succ n ih =>
      obtain ⟨c₁, hrobot, hstill, hround⟩ := exec_watchfulRound h none
      rw [Option.or_none] at hround
      cases hsides : sidewaysFor c.robot.leftMargin c.robot.rightMargin with
      | some v =>
          -- The sides decide in this round, so that no later one can break off.
          have hdecided : ¬(c.robot.later 0).Undecided := by
            intro hundecided
            rw [later, Undecided, ← sidewaysFor_eq_none_iff, hsides] at hundecided
            cases hundecided
          obtain ⟨c₂, hsteer, hrobot'⟩ := exec_steer_some v c.robot.advised c₁
          rw [hsides, hsteer] at hround
          have hsame : (paused c₂).robot = c.robot.next := hrobot'.trans hrobot
          obtain ⟨c₃, hrest⟩ := exec_watchfulRounds_some (hsame ▸ h.next) n v
          refine .inl ⟨c₃, ?_, fun i _ _ => ⟨0, Nat.zero_le i, hdecided⟩⟩
          rw [exec_watchfulRounds_succ hround, hrest]
      | none =>
          have hundecided : c.robot.Undecided := by
            rw [Undecided, ← sidewaysFor_eq_none_iff, hsides]
          rw [hsides] at hround
          rcases @exec_steer_none c.robot.advised c₁ (hstill hhalted) with
            ⟨hstraight, hsteer⟩ | ⟨hturns, c₂, hsteer, hrobot', hhalted'⟩
          · rw [hsteer] at hround
            refine .inr ⟨c₁, ?_, hstill hhalted, 0, Nat.succ_pos n, hstraight, fun j hj => ?_⟩
            · rw [watchfulRounds, exec_bind_error hround]
            · obtain rfl : j = 0 := Nat.le_zero.mp hj
              exact hundecided
          · rw [hsteer] at hround
            have hsame : (paused c₂).robot = c.robot.next := hrobot'.trans hrobot
            have hrest := ih (hsame ▸ h.next) hhalted'.paused
            rw [hsame] at hrest
            rw [exec_watchfulRounds_succ hround]
            rcases hrest with ⟨c₃, hexec, hall⟩ | ⟨c₃, hexec, hstopped, i, hi, hstraight, hnone⟩
            · refine .inl ⟨c₃, hexec, fun i hi hstraight => ?_⟩
              cases i with
              | zero => exact absurd hstraight hturns
              | succ i =>
                  obtain ⟨j, hj, hdecided⟩ := hall i (Nat.lt_of_succ_lt_succ hi) hstraight
                  exact ⟨j + 1, Nat.succ_le_succ hj, hdecided⟩
            · refine .inr ⟨c₃, hexec, hstopped, i + 1, Nat.succ_lt_succ hi, hstraight, ?_⟩
              intro j hj
              cases j with
              | zero => exact hundecided
              | succ j => exact hnone j (Nat.le_of_succ_le_succ hj)

/-- A drive has one round for every two centimetres begun. -/
theorem lt_rounds_iff (distance : Int) (i : Nat) :
    i < rounds (.int distance) ↔ 2 * (i : Int) < distance := by
  simp only [rounds, roundLength]
  omega

/-- Whole numbers are compared as such. -/
theorem atMost_int_iff (m n : Int) : (Number.int m).atMost (.int n) = true ↔ m ≤ n := by
  simp only [Number.atMost, Number.less, Number.equal, Number.order?, Bool.or_eq_true, beq_iff_eq,
    Option.some.injEq, Int.compare_eq_lt, Int.compare_eq_eq]
  omega

/-- A drive that is too long to be made blindly. -/
theorem exec_forward_watchful {distance : Int} (h : 15 < distance)
    (hwritable : (Value.int distance).isWritable = true) (c : Course Gear Command) :
    ∃ c₀, c₀.robot = c.robot ∧ Halted c₀ ∧
      (forward (.int distance)).exec c =
        (do watchfulRounds (rounds (.int distance)) none
            Maneuver.send .stop
            pure (done false) : Act Result).exec c₀ := by
  have hlong : (Number.int distance).atMost (.int blindMove) = false := by
    rw [← Bool.not_eq_true, atMost_int_iff, blindMove]
    omega
  rw [forward]
  simp only [Value.number?, hlong, Bool.false_eq_true, if_false]
  rw [moveLine_of_isWritable hwritable, exec_bind_ok (exec_lift_ok _ c),
    exec_bind_ok (exec_say _ c), exec_bind_ok (exec_send Command.stop _)]
  refine ⟨_, ?_, ?_, rfl⟩
  · rfl
  · exact halted_of_stop _

/-- A drive whose distance cannot be written breaks off before the car is sent anything. -/
theorem exec_forward_of_not_isWritable {distance : Int}
    (h : (Value.int distance).isWritable = false) (c : Course Gear Command) :
    (forward (.int distance)).exec c = (.error .unwritable, c) := by
  have hline (d : Direction) := moveLine_of_not_isWritable h d
  rw [forward]
  simp only [Value.number?, driveBlind, hline]
  split <;> exact exec_bind_error (exec_lift_error _ c) _

/-- A drive whose distance can be written: how it ends, and that the car stands still then. -/
theorem exec_forward_of_isWritable {distance : Int}
    (hwritable : (Value.int distance).isWritable = true) {car : Gear} (h : car.Sighted) :
    let drive := (forward (.int distance)).exec { robot := car }
    Halted drive.2 ∧
      (drive.1 = .ok (done false) ∨ drive.1 = .error .unsetVariable) ∧
      (drive.1 = .ok (done false) ↔
        ∀ i : Nat, 15 < distance → 2 * (i : Int) < distance →
          (car.later i).advised = .straight → ∃ j ≤ i, ¬(car.later j).Undecided) := by
  intro drive
  by_cases hlong : 15 < distance
  · obtain ⟨c₀, hrobot, hhalted, hdrive⟩ := exec_forward_watchful hlong hwritable { robot := car }
    have hsame : c₀.robot = car := hrobot
    rcases exec_watchfulRounds_none (hsame ▸ h) hhalted (rounds (.int distance)) with
      ⟨c₁, hrounds, hall⟩ | ⟨c₁, hrounds, hstopped, i, hi, hstraight, hnone⟩
    · have hend : drive = (.ok (done false), { c₁ with deeds := c₁.deeds ++ [.send .stop] }) := by
        rw [show drive = _ from hdrive, exec_bind_ok hrounds,
          exec_bind_ok (exec_send Command.stop _)]
        rfl
      rw [hsame] at hall
      rw [hend]
      refine ⟨halted_of_stop c₁, .inl rfl, fun _ i _ hi => hall i ?_, fun _ => rfl⟩
      exact (lt_rounds_iff distance i).mpr hi
    · have hend : drive = (.error .unsetVariable, c₁) := by
        rw [show drive = _ from hdrive, exec_bind_error hrounds]
      rw [hsame] at hstraight hnone
      rw [hend]
      refine ⟨hstopped, .inr rfl, nofun, fun hall => ?_⟩
      obtain ⟨j, hj, hdecided⟩ := hall i hlong ((lt_rounds_iff distance i).mp hi) hstraight
      exact absurd (hnone j hj) hdecided
  · have hshort : (Number.int distance).atMost (.int blindMove) = true := by
      rw [atMost_int_iff, blindMove]
      omega
    obtain ⟨c₁, hblind, -, hhalted⟩ :=
      driveBlind_comesToStop .forward distance hwritable speedAhead 0 { robot := car }
    have hend : drive = (.ok (done false), c₁) := by
      rw [← hblind]
      simp only [drive, forward, Value.number?, hshort, if_true]
    rw [hend]
    exact ⟨hhalted, .inl rfl, fun _ i hi => absurd hi hlong, fun _ => rfl⟩

/-- **A drive forward ends with the command to stop**, whatever the readings and the advice, if the
distance has no more digits than can be announced; otherwise the car is sent nothing at all.  The
drive ends normally unless the car is to go straight on in a round of a long drive when neither the
sides of that round nor those of a round before decided its sideways speed; then it breaks off,
standing still. -/
theorem forward_halts (distance : Int) (car : Gear) (h : car.Sighted) :
    let drive := (forward (.int distance)).exec { robot := car }
    (distance.natAbs < 10 ^ Decimal.maxDigits →
      Halted drive.2 ∧
        (drive.1 = .ok (done false) ∨ drive.1 = .error .unsetVariable) ∧
        (drive.1 = .ok (done false) ↔
          ∀ i : Nat, 15 < distance → 2 * (i : Int) < distance →
            (car.later i).advised = .straight → ∃ j ≤ i, ¬(car.later j).Undecided)) ∧
      (10 ^ Decimal.maxDigits ≤ distance.natAbs →
        drive = (.error .unwritable, { robot := car })) := by
  refine ⟨fun hshort => exec_forward_of_isWritable (Value.isWritable_int_iff.2 hshort) h,
    fun hlong => exec_forward_of_not_isWritable ?_ _⟩
  rw [← Bool.not_eq_true, Value.isWritable_int_iff]
  exact Nat.not_lt.2 hlong

theorem legible_replicate {row : List Int16} (h : row ≠ []) : Legible (List.replicate 8 row) := by
  intro i hi
  refine ⟨row, ?_, h⟩
  simp only [List.mem_cons, List.not_mem_nil, or_false] at hi
  rcases hi with rfl | rfl | rfl <;> rfl

/-- A car in a corridor: each row of its sensor reads the same distance everywhere. -/
def inCorridor (distance : Int16) : Gear :=
  { depth := List.replicate 8 (List.replicate 8 distance) }

/-- The car in the corridor is sighted. -/
theorem inCorridor_sighted (distance : Int16) : (inCorridor distance).Sighted :=
  ⟨legible_replicate (by simp [List.replicate]), nofun⟩

/-- In a wide corridor the car gets to the end of its way. -/
theorem forward_halts_inCorridor :
    ((forward (.int 20)).exec { robot := inCorridor 100 }).1 = .ok (done false) ∧
      Halted ((forward (.int 20)).exec { robot := inCorridor 100 }).2 := by
  have hdrive := (forward_halts 20 (inCorridor 100) (inCorridor_sighted 100)).1 (by decide +kernel)
  refine ⟨hdrive.2.2.mpr fun i _ _ _ => ⟨0, Nat.zero_le i, ?_⟩, hdrive.1⟩
  decide

/-- In a narrow corridor it breaks off where it is first told to go straight on. -/
theorem forward_narrow_corridor :
    (inCorridor 60).Sighted ∧
      ((forward (.int 20)).exec { robot := inCorridor 60 }).1 = .error .unsetVariable :=
  ⟨inCorridor_sighted 60, rfl⟩

end DronePilot.Robot.Gear
