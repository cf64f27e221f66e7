import DronePilot.Proofs.Maneuver
import DronePilot.Robot.Tello
import Mathlib

/-!
# Dead reckoning

The drone has no sense of where it is, so its odometry adds up what it was asked for.  A turn is sent
as it was asked for.  A distance is brought between two limits before it is sent, and what the
odometry counts is the distance before that: for a move that is too short it counts too little, for
one that is too long too much.  Nothing corrects this later, so what matters is the sum of these
excesses over a whole flight.

* `exec_move`, `exec_turn` — one order: what is sent, and what is counted.
* `Reckons.order`, `Reckons.fly` — what the odometry shows beside the commands that were sent, after
  one more order and after a flight.
* `odometry_matches_sent_iff` — the odometry is that of the commands exactly if the excesses of
  opposite directions are the same.
-/

namespace DronePilot.Robot

/-- Odometry in whole numbers. -/
def Odometry.whole (x y rotation : Int) : Odometry :=
  { x := .int x, y := .int y, rotation := .int rotation }

/-- How a move counts towards the distance forward. -/
def Direction.ahead : Direction → Int
  | forward => 1
  | backward => -1
  | left | right | up | down => 0

/-- How a move counts towards the distance to the left. -/
def Direction.aside : Direction → Int
  | left => 1
  | right => -1
  | forward | backward | up | down => 0

/-- How a turn counts towards the rotation counterclockwise. -/
def Turn.sense : Turn → Int
  | counterclockwise => 1
  | clockwise => -1

/-! ### Whole numbers -/

/-- Whole numbers are compared with a lower limit as such. -/
theorem isBelow_int (n limit : Int) : (Value.int n).isBelow limit = .ok (decide (n < limit)) := by
  show Except.ok (some (compare n limit) == some .lt) = _
  by_cases h : n < limit
  · simp [h, Int.compare_eq_lt.mpr h]
  · simp [h, Int.compare_eq_lt]

/-- And with an upper limit. -/
theorem isAbove_int (n limit : Int) : (Value.int n).isAbove limit = .ok (decide (limit < n)) :=
  isBelow_int limit n

namespace Odometry

/-- A move from a whole position leads to a whole position. -/
theorem move_whole (x y rotation : Int) (d : Direction) (n : Int) :
    (whole x y rotation).move d (.int n) =
      .ok (whole (x + d.ahead * n) (y + d.aside * n) rotation) := by
  cases d <;> simp [whole, Direction.ahead, Direction.aside, ← Int.sub_eq_add_neg] <;> rfl

/-- So does a turn by whole degrees. -/
theorem turn_whole (x y rotation : Int) (t : Turn) (n : Int) :
    (whole x y rotation).turn t (.int n) = .ok (whole x y (rotation + t.sense * n)) := by
  cases t <;> simp [whole, Turn.sense, ← Int.sub_eq_add_neg] <;> rfl

end Odometry

namespace Tello

open Maneuver

/-! ### One order -/

/-- A whole distance brought between the limits. -/
def capped (n : Int) : Int :=
  if n < shortestMove then shortestMove else if longestMove < n then longestMove else n

/-- A whole distance is capped to a whole distance. -/
theorem cap_int (n : Int) : cap (.int n) = .ok (.int (capped n)) := by
  rw [cap, isBelow_int, isAbove_int, capped]
  by_cases hshort : n < shortestMove
  · rw [decide_eq_true hshort, if_pos hshort]
    rfl
  · rw [decide_eq_false hshort, if_neg hshort]
    by_cases hlong : longestMove < n
    · rw [decide_eq_true hlong, if_pos hlong]
      rfl
    · rw [decide_eq_false hlong, if_neg hlong]
      rfl

/-- A move sends the capped distance and books the whole one. -/
theorem exec_move (d : Direction) (n : Int) {c : Course Tello Command} {x y rotation : Int}
    (h : c.robot.odometry = .whole x y rotation) :
    (move d (.int n)).exec c =
      (.ok (done (changesScene d && decide (sceneDistance < n))),
        { robot := { c.robot with odometry := .whole (x + d.ahead * n) (y + d.aside * n) rotation }
          deeds := c.deeds ++ [.send (.move d (.int (capped n))), .wait (.float 0.5)] }) := by
  rw [move, cap_int, exec_bind_ok (exec_lift_ok _ c), exec_bind_ok (exec_send _ c),
    exec_bind_ok (exec_robot _), h, Odometry.move_whole, exec_bind_ok (exec_lift_ok _ _),
    exec_bind_ok (exec_update _ _), exec_bind_ok (exec_wait rfl _), isAbove_int,
    exec_bind_ok (exec_lift_ok _ _), exec_pure, List.append_assoc]
  rfl

/-- A turn sends and books the same degrees. -/
theorem exec_turn (t : Turn) (n : Int) {c : Course Tello Command} {x y rotation : Int}
    (h : c.robot.odometry = .whole x y rotation) :
    (turn t (.int n)).exec c =
      (.ok (done false),
        { robot := { c.robot with odometry := .whole x y (rotation + t.sense * n) }
          deeds := c.deeds ++ [.send (.rotate t (.int n)), .wait (.int 1)] }) := by
  rw [turn, exec_bind_ok (exec_send _ c), exec_bind_ok (exec_robot _), h, Odometry.turn_whole,
    exec_bind_ok (exec_lift_ok _ _), exec_bind_ok (exec_update _ _), exec_bind_ok (exec_wait rfl _),
    exec_pure, List.append_assoc]
  rfl

/-! ### Flights -/

/-- An order to the drone, by a whole number of centimetres or degrees. -/
inductive Order where
  | move (d : Direction) (distance : Int)
  | turn (t : Turn) (degrees : Int)
deriving Repr, DecidableEq

/-- What the drone is asked to do. -/
def Order.action : Order → Action
  | move d n => .move d (.int n)
  | turn t n => .turn t (.int n)

/-- How much farther an order asks the drone to move in a direction than the drone is told. -/
def Order.excess (d : Direction) : Order → Int
  | move d' n => if d' = d then n - capped n else 0
  | turn _ _ => 0

/-- Gives orders one after the other. -/
def fly : List Order → Act Unit
  | [] => pure ()
  | o :: rest => do
    let _ ← act o.action
    fly rest

/-- How far a command tells the drone to move in a direction. -/
def Command.distance (d : Direction) : Command → Int
  | move d' (.int n) => if d' = d then n else 0
  | _ => 0

/-- How far a command tells the drone to turn in a sense. -/
def Command.degrees (t : Turn) : Command → Int
  | rotate t' (.int n) => if t' = t then n else 0
  | _ => 0

/-- The sum of the distances sent for a direction. -/
def sentDistance (d : Direction) (commands : List Command) : Int :=
  (commands.map (Command.distance d)).sum

/-- The sum of the degrees sent for a sense. -/
def sentDegrees (t : Turn) (commands : List Command) : Int :=
  (commands.map (Command.degrees t)).sum

/-- The sum of the excesses in a direction. -/
def excess (d : Direction) (orders : List Order) : Int :=
  (orders.map (Order.excess d)).sum

/-- One more command adds its distance to what was sent. -/
theorem sentDistance_concat (d : Direction) (commands : List Command) (command : Command) :
    sentDistance d (commands ++ [command]) = sentDistance d commands + command.distance d := by
  simp [sentDistance]

/-- Or its degrees. -/
theorem sentDegrees_concat (t : Turn) (commands : List Command) (command : Command) :
    sentDegrees t (commands ++ [command]) = sentDegrees t commands + command.degrees t := by
  simp [sentDegrees]

/-- One more order adds its excess. -/
theorem excess_concat (d : Direction) (orders : List Order) (o : Order) :
    excess d (orders ++ [o]) = excess d orders + o.excess d := by
  simp [excess]

/-- After these orders the odometry shows what was sent, and for distances the excesses besides. -/
def Reckons (c : Course Tello Command) (orders : List Order) : Prop :=
  c.robot.odometry = .whole
    (sentDistance .forward c.commands - sentDistance .backward c.commands +
      (excess .forward orders - excess .backward orders))
    (sentDistance .left c.commands - sentDistance .right c.commands +
      (excess .left orders - excess .right orders))
    (sentDegrees .counterclockwise c.commands - sentDegrees .clockwise c.commands)

/-- A wait is no command. -/
theorem commands_send_wait (c : Course Tello Command) (robot : Tello) (command : Command)
    (seconds : Value) :
    ({ robot := robot, deeds := c.deeds ++ [.send command, .wait seconds] } :
      Course Tello Command).commands = c.commands ++ [command] := by
  simp [Course.commands, Deed.command?]

/-- **One order keeps the reckoning**: what is booked is what was sent and the excess besides. -/
theorem Reckons.order {c : Course Tello Command} {orders : List Order} (h : Reckons c orders)
    (o : Order) :
    ∃ reply c', (act o.action).exec c = (.ok reply, c') ∧ Reckons c' (orders ++ [o]) := by
  cases o with
  | move d n =>
      refine ⟨_, _, exec_map_ok (exec_move d n h) _, ?_⟩
      rw [Reckons, commands_send_wait]
      simp only [sentDistance_concat, sentDegrees_concat, excess_concat]
      -- What is sent and the excess add up to the distance asked for.
      congr 1
      · cases d <;> simp [Direction.ahead, Command.distance, Order.excess] <;> omega
      · cases d <;> simp [Direction.aside, Command.distance, Order.excess] <;> omega
      · simp [Command.degrees]
  | turn t n =>
      refine ⟨_, _, exec_map_ok (exec_turn t n h) _, ?_⟩
      rw [Reckons, commands_send_wait]
      simp only [sentDistance_concat, sentDegrees_concat, excess_concat]
      congr 1
      · simp [Command.distance, Order.excess]
      · simp [Command.distance, Order.excess]
      · cases t <;> simp [Turn.sense, Command.degrees] <;> omega

/-- So does any flight. -/
theorem Reckons.fly {c : Course Tello Command} {earlier : List Order} (h : Reckons c earlier)
    (orders : List Order) :
    ∃ c', (fly orders).exec c = (.ok (), c') ∧ Reckons c' (earlier ++ orders) := by
  induction orders generalizing c earlier with
  | nil => exact ⟨c, rfl, by rwa [List.append_nil]⟩
  | cons o rest ih =>
      obtain ⟨reply, c₁, horder, h₁⟩ := h.order o
      obtain ⟨c₂, hrest, h₂⟩ := ih h₁
      refine ⟨c₂, ?_, ?_⟩
      · rw [Tello.fly, exec_bind_ok horder, hrest]
      · rwa [List.append_assoc] at h₂

/-- The odometry is that of the commands: the distances sent forward less those sent backward, those
to the left less those to the right, and the degrees counterclockwise less those clockwise. -/
def MatchesSent (c : Course Tello Command) : Prop :=
  c.robot.odometry = .whole
    (sentDistance .forward c.commands - sentDistance .backward c.commands)
    (sentDistance .left c.commands - sentDistance .right c.commands)
    (sentDegrees .counterclockwise c.commands - sentDegrees .clockwise c.commands)

/-- The distance is one that the drone accepts. -/
def Order.IsAccepted : Order → Prop
  | move _ n => shortestMove ≤ n ∧ n ≤ longestMove
  | turn _ _ => True

/-- Whole positions are equal if their parts are. -/
theorem whole_inj {x y rotation x' y' rotation' : Int} :
    Odometry.whole x y rotation = .whole x' y' rotation' ↔
      x = x' ∧ y = y' ∧ rotation = rotation' := by
  simp [Odometry.whole]

/-- The position matches what was sent exactly if the excesses cancel out. -/
theorem Reckons.matchesSent_iff {c : Course Tello Command} {orders : List Order}
    (h : Reckons c orders) :
    MatchesSent c ↔
      excess .forward orders = excess .backward orders ∧
        excess .left orders = excess .right orders := by
  rw [MatchesSent, h, whole_inj]
  omega

/-- An order that the robot accepts has no excess. -/
theorem Order.excess_of_isAccepted {o : Order} (h : o.IsAccepted) (d : Direction) :
    o.excess d = 0 := by
  cases o with
  | move d' n =>
      obtain ⟨hlow, hhigh⟩ : shortestMove ≤ n ∧ n ≤ longestMove := h
      have hcapped : capped n = n := by
        rw [capped, if_neg (by omega), if_neg (by omega)]
      simp [Order.excess, hcapped]
  | turn t n => rfl

/-- Nor has a flight of such orders. -/
theorem excess_of_isAccepted {orders : List Order} (h : ∀ o ∈ orders, o.IsAccepted)
    (d : Direction) : excess d orders = 0 := by
  induction orders with
  | nil => rfl
  | cons o rest ih =>
      obtain ⟨ho, hrest⟩ := List.forall_mem_cons.mp h
      have hsum : (rest.map (Order.excess d)).sum = 0 := ih hrest
      rw [excess, List.map_cons, List.sum_cons, Order.excess_of_isAccepted ho d, hsum, Int.add_zero]

/-- **When the odometry is that of the commands.**  A drone that starts at zero follows any orders to
their end.  Its rotation is that of the turns sent; its distances are those sent and the excesses
besides, so the odometry matches what was sent exactly if the excesses of opposite directions are the
same.  They are if the drone accepts all distances as they are. -/
theorem odometry_matches_sent_iff (drone : Tello) (orders : List Order) :
    ∃ c, (fly orders).exec { robot := { drone with odometry := {} } } = (.ok (), c) ∧
      Reckons c orders ∧
      (MatchesSent c ↔ excess .forward orders = excess .backward orders ∧
        excess .left orders = excess .right orders) ∧
      ((∀ o ∈ orders, o.IsAccepted) → MatchesSent c) := by
  have hstart : Reckons { robot := { drone with odometry := {} } } [] := rfl
  obtain ⟨c, hfly, hreckons⟩ := hstart.fly orders
  rw [List.nil_append] at hreckons
  refine ⟨c, hfly, hreckons, hreckons.matchesSent_iff, ?_⟩
  intro haccepted
  rw [hreckons.matchesSent_iff]
  have hzero := excess_of_isAccepted haccepted
  exact ⟨by rw [hzero, hzero], by rw [hzero, hzero]⟩

/-- The drone moves twenty centimetres and the odometry counts ten. -/
theorem short_move_counted_short :
    ∃ c, (fly [.move .forward 10]).exec { robot := {} } = (.ok (), c) ∧
      sentDistance .forward c.commands = 20 ∧ c.robot.odometry.x = .int 10 ∧ ¬MatchesSent c := by
  refine ⟨_, rfl, rfl, rfl, ?_⟩
  show ¬Odometry.whole 10 0 0 = .whole 20 0 0
  rw [whole_inj]
  decide

end Tello

end DronePilot.Robot
