import DronePilot.Robot.Maneuver

/-!
# Maneuvers step by step

A maneuver threads the robot and the deeds so far, and may break off.  `Maneuver.exec` runs one; the
equations below say what each primitive does, so that later proofs follow a maneuver deed by deed.
The deeds at a fault are those done by then.
-/

namespace DronePilot.Robot

variable {ρ κ α β : Type}

/-- The commands that were sent, in order. -/
def Course.commands (c : Course ρ κ) : List κ := c.deeds.filterMap Deed.command?

/-- Runs a maneuver: its value or the fault at which it broke off, and the course then. -/
def Maneuver.exec (x : Maneuver ρ κ α) (c : Course ρ κ) : Except Fault α × Course ρ κ :=
  x.run.run c

namespace Maneuver

@[simp]
theorem exec_pure (a : α) (c : Course ρ κ) : (pure a : Maneuver ρ κ α).exec c = (.ok a, c) := rfl

theorem exec_bind (x : Maneuver ρ κ α) (f : α → Maneuver ρ κ β) (c : Course ρ κ) :
    (x >>= f).exec c =
      match x.exec c with
      | (.ok a, c') => (f a).exec c'
      | (.error e, c') => (.error e, c') := by
  unfold Maneuver.exec
  simp only [ExceptT.run, bind, ExceptT.bind, ExceptT.mk, StateT.run, StateT.bind]
  cases hx : x c with
  | mk r c' =>
      cases r with
      | ok a => rfl
      | error e => rfl

/-- Maneuvers in order, where the first one comes to its end. -/
theorem exec_bind_ok {x : Maneuver ρ κ α} {c c' : Course ρ κ} {a : α} (h : x.exec c = (.ok a, c'))
    (f : α → Maneuver ρ κ β) : (x >>= f).exec c = (f a).exec c' := by
  rw [exec_bind, h]

/-- Maneuvers in order, where the first one fails. -/
theorem exec_bind_error {x : Maneuver ρ κ α} {c c' : Course ρ κ} {e : Fault}
    (h : x.exec c = (.error e, c')) (f : α → Maneuver ρ κ β) :
    (x >>= f).exec c = (.error e, c') := by
  rw [exec_bind, h]

/-- A value that is put into another form. -/
theorem exec_map_ok {x : Maneuver ρ κ α} {c c' : Course ρ κ} {a : α} (h : x.exec c = (.ok a, c'))
    (f : α → β) : (f <$> x).exec c = (.ok (f a), c') := by
  rw [map_eq_pure_bind, exec_bind_ok h, exec_pure]

/-- A command is sent and stays with the deeds. -/
theorem exec_send (command : κ) (c : Course ρ κ) :
    (send command : Maneuver ρ κ Unit).exec c =
      (.ok (), { c with deeds := c.deeds ++ [.send command] }) := rfl

/-- So does a line that is said. -/
theorem exec_say (line : String) (c : Course ρ κ) :
    (say line : Maneuver ρ κ Unit).exec c =
      (.ok (), { c with deeds := c.deeds ++ [.say (line ++ "\n")] }) := rfl

/-- A wait of a time that is not negative. -/
theorem exec_wait {seconds : Value} (h : seconds.isBelow 0 = .ok false) (c : Course ρ κ) :
    (wait seconds : Maneuver ρ κ Unit).exec c =
      (.ok (), { c with deeds := c.deeds ++ [.wait seconds] }) := by
  rw [wait, h]
  rfl

theorem exec_robot (c : Course ρ κ) : (robot : Maneuver ρ κ ρ).exec c = (.ok c.robot, c) := rfl

/-- The robot is changed, and nothing else. -/
theorem exec_update (f : ρ → ρ) (c : Course ρ κ) :
    (update f : Maneuver ρ κ Unit).exec c = (.ok (), { c with robot := f c.robot }) := rfl

theorem exec_lift_ok (a : α) (c : Course ρ κ) :
    (liftM (.ok a : Except Fault α) : Maneuver ρ κ α).exec c = (.ok a, c) := rfl

/-- A pure computation that fails does nothing. -/
theorem exec_lift_error (e : Fault) (c : Course ρ κ) :
    (liftM (.error e : Except Fault α) : Maneuver ρ κ α).exec c = (.error e, c) := rfl

end Maneuver

/-- A move is announced if its distance can be written. -/
theorem moveLine_of_isWritable {distance : Value} (h : distance.isWritable = true) (d : Direction) :
    moveLine d distance = .ok ("-> Moving " ++ d.word ++ " " ++ distance.display ++ " cm") := by
  rw [moveLine, Value.written, if_pos h]
  rfl

/-- A turn is announced if its degrees can be written. -/
theorem turnLine_of_isWritable {degrees : Value} (h : degrees.isWritable = true) (t : Turn) :
    turnLine t degrees = .ok ("-> Turning " ++ t.word ++ " " ++ degrees.display ++ " degrees") := by
  rw [turnLine, Value.written, if_pos h]
  rfl

/-- A distance that cannot be written is a fault. -/
theorem moveLine_of_not_isWritable {distance : Value} (h : distance.isWritable = false)
    (d : Direction) : moveLine d distance = .error .unwritable := by
  rw [moveLine, Value.written, if_neg (by simp [h])]
  rfl

end DronePilot.Robot
