import DronePilot.Proofs.DeadReckoning
import DronePilot.Proofs.Lookup
import DronePilot.Proofs.Messages
import DronePilot.Proofs.Numeral

/-!
# Going to an object

To go to an object the pilot asks its eyes where the object is, turns the robot to it and moves the
robot forward.  The eyes answer with a position, or with a message when the object is not in sight.
Nobody looks at which of the two it is before it is compared with the middle of the picture, so a
message ends the skill with a fault, and the wish to replan that came with it is lost.

* `Sight.findWithin_log` — looking for an object does nothing but wait.
* `Robot.Counts.move`, `Robot.Counts.turn` — the robots that a pilot can have make every whole move
  and turn.
* `run_position`, `run_faceTo` — the steps of the skill.
* `approach_of_find` — how the skill ends, by what is found.
-/

namespace DronePilot.Vision

/-! ### Looking only waits -/

/-- What arrives leaves the log as it is. -/
theorem Scene.deliver_log (time : Float) (arrivals : List Arrival) (s : Scene) :
    (Scene.deliver time arrivals s).log = s.log := by
  induction arrivals generalizing s with
  | nil => rfl
  | cons a rest ih =>
      rw [Scene.deliver]
      split
      · rw [ih]
        rfl
      · rw [ih]

/-- The pause between two looks in the record. -/
def lookPause : Event := .sleep (.float Sight.lookInterval)

/-- A rest is logged. -/
theorem Scene.rested_log (s : Scene) : s.rested.log = s.log ++ [lookPause] :=
  Scene.deliver_log ..

/-- Looking for an object leaves nothing but pauses in the record; all of them, if it is not found. -/
theorem Sight.findWithin_log (wanted : Value) (n : Nat) (s : Sight) :
    ∃ k ≤ n, (s.findWithin wanted n).2.scene.log = s.scene.log ++ List.replicate k lookPause ∧
      ((s.findWithin wanted n).1 = .ok none → k = n) := by
  induction n generalizing s with
  | zero => exact ⟨0, le_refl 0, (List.append_nil _).symm, fun _ => rfl⟩
  | succ n ih =>
      have hstop : ∀ {s' : Sight}, s'.scene = s.scene →
          s'.scene.log = s.scene.log ++ List.replicate 0 lookPause := by
        intro s' hscene
        rw [hscene, List.replicate_zero, List.append_nil]
      have hscene := s.refresh_scene
      rw [findWithin]
      cases hrefresh : s.refresh with
      | mk outcome s' =>
          rw [hrefresh] at hscene
          cases outcome with
          | error f => exact ⟨0, Nat.zero_le _, hstop hscene, fun h => by cases h⟩
          | ok _ =>
              simp only
              cases hfirst : firstNamed wanted s'.objects with
              | error f => exact ⟨0, Nat.zero_le _, hstop hscene, fun h => by cases h⟩
              | ok found =>
                  cases found with
                  | some o => exact ⟨0, Nat.zero_le _, hstop hscene, fun h => by cases h⟩
                  | none =>
                      obtain ⟨k, hk, hlog, hall⟩ := ih s'.pause
                      refine ⟨k + 1, Nat.succ_le_succ hk, ?_, fun h => congrArg (· + 1) (hall h)⟩
                      rw [hlog, pause_scene, Scene.rested_log, hscene, List.replicate_succ,
                        List.append_assoc]
                      rfl

end DronePilot.Vision

namespace DronePilot.Robot

open DronePilot.Vision Maneuver

/-! ### The robots of a pilot -/

namespace Virtual

/-- A move is announced, counted and waited for. -/
theorem exec_move (d : Direction) {n : Int} (hn : (Value.int n).isWritable = true)
    {c : Course Virtual Command} {x y rotation : Int}
    (h : c.robot.odometry = .whole x y rotation) :
    ∃ deeds, (move d (.int n)).exec c =
      (.ok (done false),
        { robot := { c.robot with odometry := .whole (x + d.ahead * n) (y + d.aside * n) rotation }
          deeds := deeds }) := by
  rw [move, moveLine_of_isWritable hn, exec_bind_ok (exec_lift_ok _ c), exec_bind_ok (exec_say _ c),
    exec_bind_ok (exec_robot _), h, Odometry.move_whole, exec_bind_ok (exec_lift_ok _ _),
    exec_bind_ok (exec_update _ _), exec_bind_ok (exec_wait rfl _), exec_pure]
  exact ⟨_, rfl⟩

/-- A wide turn is announced twice and takes no time. -/
theorem exec_turn (t : Turn) {n : Int} (hn : (Value.int n).isWritable = true)
    {c : Course Virtual Command} {x y rotation : Int}
    (h : c.robot.odometry = .whole x y rotation) :
    ∃ deeds, (turn t (.int n)).exec c =
      (.ok (done false),
        { robot := { c.robot with odometry := .whole x y (rotation + t.sense * n) }
          deeds := deeds }) := by
  rw [turn, turnLine_of_isWritable hn, exec_bind_ok (exec_lift_ok _ c), exec_bind_ok (exec_say _ c),
    exec_bind_ok (exec_robot _), h, Odometry.turn_whole, exec_bind_ok (exec_lift_ok _ _),
    exec_bind_ok (exec_update _ _)]
  have hnumber : (Value.int n).toNumber = .ok (.int n) := rfl
  rw [hnumber, exec_bind_ok (exec_lift_ok _ _)]
  split
  · rw [exec_bind_ok (exec_say _ _), exec_pure]
    exact ⟨_, rfl⟩
  · rw [exec_bind_ok (exec_wait rfl _), exec_pure]
    exact ⟨_, rfl⟩

end Virtual

/-- Carrying out a maneuver carries out its deeds in order. -/
theorem carryOut_of_exec {ρ κ α : Type} {m : Maneuver ρ κ α} {robot : ρ} {r : Except Fault α}
    {c : Course ρ κ} (h : m.exec { robot := robot } = (r, c)) (event : κ → Event) (s : Scene) :
    carryOut event m robot s = (r, c.robot, c.deeds.foldl (Deed.carryOut event) s) := by
  have hrun : m.run.run { robot := robot } = (r, c) := h
  rw [carryOut, hrun]

/-- What the simulated robot does, it does in any scene. -/
theorem act_virtual (a : Action) {reply : Reply} {r : Virtual} {c : Course Virtual Virtual.Command}
    (h : (Virtual.act a).exec { robot := r } = (.ok reply, c)) (s : Scene) :
    ∃ s', Robot.act a (.virtual r) s = (.ok reply, .virtual c.robot, s') := by
  have hact : Robot.act a (.virtual r) s =
      let done := carryOut Virtual.Command.event (Virtual.act a) r s
      (done.1, .virtual done.2.1, done.2.2) := rfl
  rw [hact, carryOut_of_exec h]
  exact ⟨_, rfl⟩

/-- So does the drone. -/
theorem act_tello (a : Action) {reply : Reply} {r : Tello} {c : Course Tello Tello.Command}
    (h : (Tello.act a).exec { robot := r } = (.ok reply, c)) (s : Scene) :
    ∃ s', Robot.act a (.tello r) s = (.ok reply, .tello c.robot, s') := by
  have hact : Robot.act a (.tello r) s =
      let done := carryOut Tello.Command.event (Tello.act a) r s
      (done.1, .tello done.2.1, done.2.2) := rfl
  rw [hact, carryOut_of_exec h]
  exact ⟨_, rfl⟩

/-- The robot counts its moves and turns, and has counted whole numbers so far. -/
structure Counts (robot : Robot) (x y rotation : Int) : Prop where
  kind : robot.kind ≠ .gear
  odometry : robot.odometry = .whole x y rotation

namespace Counts

variable {robot : Robot} {x y rotation : Int}

/-- A whole move that can be announced is made and counted. -/
theorem move (h : robot.Counts x y rotation) (d : Direction) {n : Int}
    (hn : (Value.int n).isWritable = true) (s : Scene) :
    ∃ reply robot' s', Robot.act (.move d (.int n)) robot s = (.ok reply, robot', s') ∧
      robot'.Counts (x + d.ahead * n) (y + d.aside * n) rotation := by
  obtain ⟨hkind, hodometry⟩ := h
  cases robot with
  | virtual r =>
      obtain ⟨deeds, hmove⟩ := Virtual.exec_move d hn (c := { robot := r }) hodometry
      obtain ⟨s', hact⟩ := act_virtual (.move d (.int n)) (exec_map_ok hmove _) s
      exact ⟨_, _, s', hact, by simp [Robot.kind], rfl⟩
  | tello r =>
      have hmove := Tello.exec_move d n (c := { robot := r }) hodometry
      obtain ⟨s', hact⟩ := act_tello (.move d (.int n)) (exec_map_ok hmove _) s
      exact ⟨_, _, s', hact, by simp [Robot.kind], rfl⟩
  | gear r => exact absurd rfl hkind

/-- A whole turn that can be announced is made and counted. -/
theorem turn (h : robot.Counts x y rotation) (t : Turn) {n : Int}
    (hn : (Value.int n).isWritable = true) (s : Scene) :
    ∃ reply robot' s', Robot.act (.turn t (.int n)) robot s = (.ok reply, robot', s') ∧
      robot'.Counts x y (rotation + t.sense * n) := by
  obtain ⟨hkind, hodometry⟩ := h
  cases robot with
  | virtual r =>
      obtain ⟨deeds, hturn⟩ := Virtual.exec_turn t hn (c := { robot := r }) hodometry
      obtain ⟨s', hact⟩ := act_virtual (.turn t (.int n)) (exec_map_ok hturn _) s
      exact ⟨_, _, s', hact, by simp [Robot.kind], rfl⟩
  | tello r =>
      have hturn := Tello.exec_turn t n (c := { robot := r }) hodometry
      obtain ⟨s', hact⟩ := act_tello (.turn t (.int n)) (exec_map_ok hturn _) s
      exact ⟨_, _, s', hact, by simp [Robot.kind], rfl⟩
  | gear r => exact absurd rfl hkind

end Counts

end DronePilot.Robot

namespace DronePilot.Duty

open DronePilot.Vision

variable {α β : Type} {p p' : Pilot}

/-- Duties in order, where the first one fails. -/
theorem run_bind_error {x : Duty α} {f : Fault} (h : x.run.run p = (.error f, p'))
    (k : α → Duty β) : (x >>= k).run.run p = (.error f, p') := by
  rw [run_bind, h]

/-- Looking changes the sight, and nothing else. -/
theorem run_see {f : Sight → Except Fault α × Sight} {r : Except Fault α} {sight : Sight}
    (h : f p.sight = (r, sight)) : (see f).run.run p = (r, { p with sight := sight }) := by
  have hsee : (see f).run.run p = ((f p.sight).1, { p with sight := (f p.sight).2 }) := rfl
  rw [hsee, h]

/-- Asks the robot for actions one after the other. -/
def actAll : List Robot.Action → Duty Unit
  | [] => pure ()
  | a :: rest => do
    discard (act a)
    actAll rest

/-- An action that the robot carries out is followed by the others. -/
theorem run_actAll_cons {a : Robot.Action} {reply : Robot.Reply} {robot : Robot} {scene : Scene}
    (h : Robot.act a p.robot p.sight.scene = (.ok reply, robot, scene))
    (rest : List Robot.Action) :
    (actAll (a :: rest)).run.run p =
      (actAll rest).run.run { p with robot := robot, sight := { p.sight with scene := scene } } := by
  have hact : (act a).run.run p =
      (.ok reply, { p with robot := robot, sight := { p.sight with scene := scene } }) := by
    have hsteer : (act a).run.run p =
        let done := Robot.act a p.robot p.sight.scene
        (done.1, { p with robot := done.2.1, sight := { p.sight with scene := done.2.2 } }) := rfl
    rw [hsteer, h]
  have hdiscard : (discard (act a)).run.run p =
      (.ok (), { p with robot := robot, sight := { p.sight with scene := scene } }) := by
    show ((fun _ => PUnit.unit) <$> act a).run.run p = _
    rw [map_eq_pure_bind, run_bind_ok hact]
    rfl
  rw [actAll, run_bind_ok hdiscard]

end DronePilot.Duty

namespace DronePilot.Pilot

open DronePilot.Robot DronePilot.Text DronePilot.Vision

/-! ### The steps of the skill -/

/-- A name without brackets holds no position. -/
theorem positionInName_eq_none {name : List Char} (h : '[' ∉ name) : positionInName name = none := by
  have hcut : cutAt? '[' name = none := by
    induction name with
    | nil => rfl
    | cons c rest ih =>
        obtain ⟨hc, hrest⟩ := List.ne_and_not_mem_of_not_mem_cons h
        rw [cutAt?, if_neg (Ne.symm hc), ih hrest]
        rfl
  rw [positionInName, hcut]
  rfl

/-- The position of an object is where it is seen.  If it is not seen there is no position, whatever
else the eyes have to say. -/
theorem run_position {name : String} (hname : '[' ∉ name.toList) {p : Pilot}
    {r : Except Fault (Option Sighting)} {sight : Sight}
    (hfind : p.sight.find (.text name) = (r, sight)) :
    (position (.text name)).run.run p =
      (r >>= fun found => found.elim (.error .wrongKind) fun o => .ok o.x,
        { p with sight := sight }) := by
  unfold position
  simp only [positionInName_eq_none hname]
  cases r with
  | error f =>
      have hsee : Sight.measure .x (.text name) p.sight = (.error f, sight) := by
        rw [Sight.measure, hfind]
      rw [Duty.run_bind_error (Duty.run_see hsee)]
      rfl
  | ok found =>
      cases found with
      | none =>
          have hsee : Sight.measure .x (.text name) p.sight =
              (.ok (Sight.Measure.missing .x (.text name)), sight) := by
            rw [Sight.measure, hfind]
            rfl
          rw [Duty.run_bind_ok (Duty.run_see hsee)]
          rfl
      | some o =>
          have hsee : Sight.measure .x (.text name) p.sight =
              (.ok (.ofValue (.float o.x)), sight) := by
            rw [Sight.measure, hfind]
            rfl
          rw [Duty.run_bind_ok (Duty.run_see hsee)]
          rfl

/-- The turn that brings a position to the middle of the picture: none near the middle, and otherwise
one by whole degrees. -/
inductive Faces (x : Float) : Option (Turn × Int) → Prop
  | right {n : Int} (hright : x > 0.55)
      (hdegrees : Binary64.truncate? ((x - 0.5) * cameraAngle) = some n) :
      Faces x (some (.clockwise, n))
  | left {n : Int} (hright : ¬x > 0.55) (hleft : x < 0.45)
      (hdegrees : Binary64.truncate? ((0.5 - x) * cameraAngle) = some n) :
      Faces x (some (.counterclockwise, n))
  | ahead (hright : ¬x > 0.55) (hleft : ¬x < 0.45) : Faces x none

/-- The degrees of a turn come from a double, so that they can be announced. -/
theorem Faces.isWritable {x : Float} {t : Turn} {n : Int} (h : Faces x (some (t, n))) :
    (Value.int n).isWritable = true := by
  cases h with
  | right _ hdegrees => exact Value.isWritable_int_iff.2 (Binary64.natAbs_truncate?_lt hdegrees)
  | left _ _ hdegrees => exact Value.isWritable_int_iff.2 (Binary64.natAbs_truncate?_lt hdegrees)

/-- The turn as an action. -/
def turning (turn : Option (Turn × Int)) : List Action :=
  (turn.map fun (t, n) => .turn t (.int n)).toList

/-- A number that has a whole part is converted to it. -/
theorem toWhole_of_truncate? {x : Float} {n : Int} (h : Binary64.truncate? x = some n) :
    (Value.float x).toWhole = .ok n := by
  rw [Value.toWhole, h]

/-- One that has none cannot be converted. -/
theorem toWhole_of_truncate?_eq_none {x : Float} (h : Binary64.truncate? x = none) :
    ∃ f, (f = .unreadableNumber ∨ f = .tooLarge) ∧ (Value.float x).toWhole = .error f := by
  rw [Value.toWhole, h]
  simp only
  split
  · exact ⟨_, .inl rfl, rfl⟩
  · exact ⟨_, .inr rfl, rfl⟩

/-- Facing an object is making the turn towards it, if there is one to make. -/
theorem faceTo_of_faces {x : Float} {turn : Option (Turn × Int)} (h : Faces x turn) :
    faceTo x = Duty.actAll (turning turn) := by
  have hone : ∀ a : Action, discard (Duty.act a) = Duty.actAll [a] :=
    fun a => bind_pure_unit.symm
  have hwhole : ∀ n : Int, (liftM (.ok n : Except Fault Int) : Duty Int) = pure n := fun _ => rfl
  cases h with
  | right hright hdegrees =>
      rw [faceTo, if_pos hright, toWhole_of_truncate? hdegrees, hwhole, pure_bind, hone]
      rfl
  | left hright hleft hdegrees =>
      rw [faceTo, if_neg hright, if_pos hleft, toWhole_of_truncate? hdegrees, hwhole, pure_bind, hone]
      rfl
  | ahead hright hleft =>
      rw [faceTo, if_neg hright, if_neg hleft]
      rfl

/-- A turn by a number of degrees that is not whole is not asked for. -/
theorem run_faceTo_of_not_faces {x : Float} (h : ∀ turn, ¬Faces x turn) (p : Pilot) :
    ∃ f, (f = .unreadableNumber ∨ f = .tooLarge) ∧ (faceTo x).run.run p = (.error f, p) := by
  by_cases hright : x > 0.55
  · have hnone : Binary64.truncate? ((x - 0.5) * cameraAngle) = none := by
      rw [Option.eq_none_iff_forall_not_mem]
      intro n hn
      exact h _ (.right hright hn)
    obtain ⟨f, hf, hwhole⟩ := toWhole_of_truncate?_eq_none hnone
    rw [faceTo, if_pos hright, hwhole]
    exact ⟨f, hf, rfl⟩
  · by_cases hleft : x < 0.45
    · have hnone : Binary64.truncate? ((0.5 - x) * cameraAngle) = none := by
        rw [Option.eq_none_iff_forall_not_mem]
        intro n hn
        exact h _ (.left hright hleft hn)
      obtain ⟨f, hf, hwhole⟩ := toWhole_of_truncate?_eq_none hnone
      rw [faceTo, if_neg hright, if_pos hleft, hwhole]
      exact ⟨f, hf, rfl⟩
    · exact absurd (.ahead hright hleft) (h none)

/-- What the robot is asked for on the way to an object: the turn, if there is one, and one move. -/
def approachActions (turn : Option (Turn × Int)) : List Action :=
  turning turn ++ [.move .forward (.int approachDistance)]

/-- The robot carries out the turn and the move, and counts them. -/
theorem run_approachActions {p : Pilot} {x y rotation : Int} (h : p.robot.Counts x y rotation)
    {position : Float} {turn : Option (Turn × Int)} (hfaces : Faces position turn) :
    ∃ p', (Duty.actAll (approachActions turn)).run.run p = (.ok (), p') ∧
      p'.robot.Counts (x + approachDistance) y
        (rotation + turn.elim 0 fun (t, n) => t.sense * n) := by
  have hmove : ∀ {p : Pilot} {rotation : Int}, p.robot.Counts x y rotation →
      ∃ p', (Duty.actAll [.move .forward (.int approachDistance)]).run.run p = (.ok (), p') ∧
        p'.robot.Counts (x + approachDistance) y rotation := by
    intro p rotation hp
    obtain ⟨reply, robot, scene, hact, hcounts⟩ := hp.move .forward (n := approachDistance) rfl
      p.sight.scene
    refine ⟨_, Duty.run_actAll_cons hact [], ?_⟩
    simpa [Direction.ahead, Direction.aside] using hcounts
  cases turn with
  | none =>
      obtain ⟨p', hrun, hcounts⟩ := hmove h
      exact ⟨p', hrun, by simpa using hcounts⟩
  | some turn =>
      obtain ⟨t, n⟩ := turn
      obtain ⟨reply, robot, scene, hact, hcounts⟩ := h.turn t hfaces.isWritable p.sight.scene
      obtain ⟨p', hrun, hcounts'⟩ :=
        hmove (p := { p with robot := robot, sight := { p.sight with scene := scene } }) hcounts
      exact ⟨p', (Duty.run_actAll_cons hact _).trans hrun, hcounts'⟩

/-- From a position that can be faced on, the skill is to ask for these actions. -/
theorem faceTo_move_of_faces {x : Float} {turn : Option (Turn × Int)} (h : Faces x turn) :
    (do
      faceTo x
      discard (Duty.act (.move .forward (.int approachDistance)))
      pure Result.none) =
    (do
      Duty.actAll (approachActions turn)
      pure Result.none) := by
  rw [faceTo_of_faces h]
  cases turn with
  | none => simp [approachActions, turning, Duty.actAll]
  | some turn => simp [approachActions, turning, Duty.actAll]

/-! ### How the skill ends -/

/-- **Going to an object.**  The pilot looks, and meanwhile does nothing but wait; what it finds is an
object with the name on the frames that it looks at.  If it finds none the skill ends with a fault,
and the robot has been asked for nothing.  If it finds one, the robot makes at most one turn and then
one move, unless the turn is by no whole number of degrees. -/
theorem approach_of_find {name : String} (hname : '[' ∉ name.toList) {p : Pilot} {x y rotation : Int}
    (hrobot : p.robot.Counts x y rotation) {r : Except Fault (Option Sighting)} {sight : Sight}
    (hfind : p.sight.find (.text name) = (r, sight)) :
    (p.sight.Faithful → ∀ views,
      List.Forall₂ Shown (p.sight.scene.polled Sight.lookCount) views →
        ∃ found, r = .ok (found.map Spotted.sighting) ∧
          (∀ o, found = some o → o ∈ views.flatten ∧ o.begins name = true) ∧
          (TellsApart (p.sight.scene.polled Sight.lookCount) →
            found = views.flatten.find? (Spotted.begins name))) ∧
      (∃ k ≤ Sight.lookCount, sight.scene.log = p.sight.scene.log ++ List.replicate k lookPause) ∧
      (∀ f, r = .error f →
        (approach (.text name)).run.run p = (.error f, { p with sight := sight })) ∧
      (r = .ok none →
        (approach (.text name)).run.run p = (.error .wrongKind, { p with sight := sight })) ∧
      ∀ o, r = .ok (some o) →
        (∀ turn, Faces o.x turn →
          ∃ p', (approach (.text name)).run.run p = (.ok .none, p') ∧
            (Duty.actAll (approachActions turn)).run.run { p with sight := sight } = (.ok (), p') ∧
            p'.robot.Counts (x + approachDistance) y
              (rotation + turn.elim 0 fun (t, n) => t.sense * n)) ∧
        ((∀ turn, ¬Faces o.x turn) →
          ∃ f, (f = .unreadableNumber ∨ f = .tooLarge) ∧
            (approach (.text name)).run.run p = (.error f, { p with sight := sight })) := by
  have hposition := run_position hname hfind
  refine ⟨?_, ?_, ?_, ?_, ?_⟩
  · intro hfaithful views hviews
    have hamong := Sight.find_among name hfaithful hviews
    rwa [hfind] at hamong
  · obtain ⟨k, hk, hlog, -⟩ := p.sight.findWithin_log (.text name) Sight.lookCount
    rw [← Sight.find, hfind] at hlog
    exact ⟨k, hk, hlog⟩
  · intro f hr
    subst hr
    exact Duty.run_bind_error hposition _
  · intro hr
    subst hr
    exact Duty.run_bind_error hposition _
  · intro o hr
    subst hr
    have hgo := Duty.run_bind_ok hposition fun x => do
      faceTo x
      discard (Duty.act (.move .forward (.int approachDistance)))
      pure Result.none
    rw [← approach] at hgo
    constructor
    · intro turn hfaces
      obtain ⟨p', hrun, hcounts⟩ :=
        run_approachActions (p := { p with sight := sight }) hrobot hfaces
      refine ⟨p', ?_, hrun, hcounts⟩
      rw [hgo, faceTo_move_of_faces hfaces, Duty.run_bind_ok hrun]
      rfl
    · -- The fault comes before the turn, so there is nothing to take back.
      intro hnone
      obtain ⟨f, hf, hrun⟩ := run_faceTo_of_not_faces hnone { p with sight := sight }
      exact ⟨f, hf, hgo.trans (Duty.run_bind_error hrun _)⟩

/-- A pilot with a robot and what it sees. -/
def pilotWith (robot : Robot) (sight : Sight) : Pilot where
  collection := { sets := #[] }
  robot := robot
  sight := sight
  client := { link := .direct }
  began := 0

/-- A person in the left half of the picture is faced by seventeen degrees and approached. -/
theorem approach_of_find_person :
    '[' ∉ "person".toList ∧ (Robot.tello {}).Counts 0 0 0 ∧
      ∃ p', (approach (.text "person")).run.run
          (pilotWith (.tello {}) (.after [.share {} .blank pairResult])) = (.ok .none, p') ∧
        p'.robot.Counts 110 0 17 := by
  have hname : '[' ∉ "person".toList := by decide
  have hrobot : (Robot.tello {}).Counts 0 0 0 := ⟨by simp [Robot.kind], rfl⟩
  have hfind : ∃ o sight, (Sight.after [.share {} .blank pairResult]).find (.text "person") =
      (.ok (some o), sight) ∧ o.x = 0.25 := ⟨_, _, rfl, by decide⟩
  obtain ⟨o, sight, hfind, hx⟩ := hfind
  have hfaces : Faces o.x (some (.counterclockwise, 17)) := by
    rw [hx]
    exact .left (by decide) (by decide) (by decide)
  obtain ⟨-, -, -, -, hgo⟩ := approach_of_find hname
    (p := pilotWith (.tello {}) (.after [.share {} .blank pairResult])) hrobot hfind
  obtain ⟨p', hrun, -, hcounts⟩ := (hgo o rfl).1 _ hfaces
  exact ⟨hname, hrobot, p', hrun, hcounts⟩

/-- Before the first frame nothing is in sight.  The eyes say so and ask for a new plan, but going
there ends with a fault after ten looks. -/
theorem approach_unseen_faults :
    (∃ said, (Sight.measure .x (.text "apple") {}).1 = .ok { value := .text said, replan := true }) ∧
      ∃ p', (approach (.text "apple")).run.run (pilotWith (.virtual {}) {}) = (.error .wrongKind, p') ∧
        p'.robot = .virtual {} ∧ p'.sight.scene.log = List.replicate 10 lookPause :=
  ⟨⟨_, rfl⟩, _, rfl, rfl, rfl⟩

end DronePilot.Pilot
