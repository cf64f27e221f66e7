import DronePilot.Pilot.Mission
import DronePilot.Proofs.Contention

/-!
# What the pilot tells the user

One message has a meaning of its own: after it no more will come.  The pilot sends it at the end of
a mission and nowhere else: neither its abilities nor the plans that call them do.  All they do to
the mailbox is to add other messages at its end.  Only an earlier mission that still waits for its
executor may come to its end meanwhile, if that executor takes a statement of the plan.

* `Tells`, `TellsOn` — the pilot has told the user more, and so often that it has ended.
* `Ability.tellsOn_perform` — no ability tells the user that.
* `tells_runPlan` — nor does a plan, except at the end of an earlier mission.
-/

namespace DronePilot.Pilot

open DronePilot.Plan DronePilot.Planner DronePilot.Vision

/-- The user has been told more, and so many times that no more will come. -/
def Tells (n : Nat) (p p' : Pilot) : Prop :=
  ∃ new, p'.mailbox = p.mailbox.map (· ++ new) ∧ new.count (.text endMessage) = n

/-- The user has been told more, but not that no more will come, and the executors left over are the
same. -/
structure TellsOn (p p' : Pilot) : Prop where
  told : Tells 0 p p'
  strays : p'.strays = p.strays

/-- What leaves the mailbox alone tells nothing. -/
theorem TellsOn.of_mailbox {p p' : Pilot} (h : p'.mailbox = p.mailbox)
    (hstrays : p'.strays = p.strays) : TellsOn p p' := by
  refine ⟨⟨[], ?_, rfl⟩, hstrays⟩
  rw [h]
  simp

/-- Doing nothing tells nothing. -/
theorem TellsOn.refl (p : Pilot) : TellsOn p p := .of_mailbox rfl rfl

/-- What is told in turn adds up. -/
theorem Tells.trans {m n : Nat} {p q r : Pilot} (hpq : Tells m p q) (hqr : Tells n q r) :
    Tells (m + n) p r := by
  obtain ⟨new, hq, rfl⟩ := hpq
  obtain ⟨more, hr, rfl⟩ := hqr
  refine ⟨new ++ more, ?_, List.count_append⟩
  rw [hr, hq]
  simp [Function.comp_def]

/-- What tells nothing of an end in two parts tells nothing of one. -/
theorem TellsOn.trans {p q r : Pilot} (hpq : TellsOn p q) (hqr : TellsOn q r) : TellsOn p r :=
  ⟨hpq.told.trans hqr.told, hqr.strays.trans hpq.strays⟩

end DronePilot.Pilot

namespace DronePilot.Duty

open DronePilot.Pilot DronePilot.Planner DronePilot.Vision

variable {α β : Type}

/-- Whether it fails or not, the duty only tells the user more. -/
def TellsOn (x : Duty α) : Prop :=
  ∀ p, Pilot.TellsOn p (x.run.run p).2

/-! What does not touch the mailbox only tells the user more. -/

theorem tellsOn_pure (a : α) : (pure a : Duty α).TellsOn := fun p => .refl p

theorem tellsOn_throw (f : Fault) : (throw f : Duty α).TellsOn := fun p => .refl p

/-- An outcome that was reached elsewhere tells nothing. -/
theorem tellsOn_conclude (r : Except Fault α) : (conclude r).TellsOn := fun p => .refl p

theorem tellsOn_lift (r : Except Fault α) : (liftM r : Duty α).TellsOn := fun p => .refl p

theorem tellsOn_get : (get : Duty Pilot).TellsOn := fun p => .refl p

/-- A change of the pilot tells nothing if it touches neither the mailbox nor the executors left
over. -/
theorem tellsOn_modify {f : Pilot → Pilot} (h : ∀ p, (f p).mailbox = p.mailbox)
    (hstrays : ∀ p, (f p).strays = p.strays) : (modify f : Duty Unit).TellsOn :=
  fun p => .of_mailbox (h p) (hstrays p)

/-- One duty after another: the second one is done if the first did not fail. -/
theorem run_bind (x : Duty α) (f : α → Duty β) (p : Pilot) :
    (x >>= f).run.run p =
      match x.run.run p with
      | (.ok a, p') => (f a).run.run p'
      | (.error e, p') => (.error e, p') := by
  simp only [ExceptT.run, Bind.bind, ExceptT.bind, ExceptT.mk, StateT.run, StateT.bind]
  cases x p with
  | mk r p' => cases r <;> rfl

/-- A duty that does not fail is followed by the next. -/
theorem run_bind_ok {x : Duty α} {p p' : Pilot} {a : α} (h : x.run.run p = (.ok a, p'))
    (f : α → Duty β) : (x >>= f).run.run p = (f a).run.run p' := by
  rw [run_bind, h]

/-- Duties that only tell the user more do so one after the other. -/
theorem TellsOn.bind {x : Duty α} {f : α → Duty β} (hx : x.TellsOn) (hf : ∀ a, (f a).TellsOn) :
    (x >>= f).TellsOn := by
  intro p
  have hfirst := hx p
  rw [run_bind]
  generalize x.run.run p = done at hfirst
  obtain ⟨r, p'⟩ := done
  cases r with
  | ok a => exact hfirst.trans (hf a p')
  | error e => exact hfirst

/-- What becomes of a value tells nothing. -/
theorem TellsOn.map {x : Duty α} (hx : x.TellsOn) (f : α → β) : (f <$> x).TellsOn := by
  rw [map_eq_pure_bind]
  exact hx.bind fun a => tellsOn_pure (f a)

/-- Nor does dropping it. -/
theorem TellsOn.discard {x : Duty α} (hx : x.TellsOn) : (discard x).TellsOn := by
  have hmap : ((fun _ => PUnit.unit) <$> x).TellsOn := hx.map _
  exact hmap

/-- Looking tells nothing. -/
theorem tellsOn_see (f : Sight → Except Fault α × Sight) : (see f).TellsOn :=
  fun _ => .of_mailbox rfl rfl

/-- Nor do the deeds of the robot. -/
theorem tellsOn_act (a : Robot.Action) : (act a).TellsOn :=
  fun _ => .of_mailbox rfl rfl

/-- Nor does asking the language model. -/
theorem tellsOn_consult (prompt : String) : (consult prompt).TellsOn :=
  fun _ => .of_mailbox rfl rfl

/-- A message tells the user more. -/
theorem tellsOn_tell {m : Message} (h : m ≠ .text endMessage) : (tell m).TellsOn := by
  intro p
  exact ⟨⟨[m], rfl, List.count_eq_zero.2 (by simpa using h.symm)⟩, rfl⟩

end DronePilot.Duty

namespace DronePilot.Pilot

open DronePilot.Plan DronePilot.Planner DronePilot.Vision

/-! ### Abilities -/

/-- Another text is not the last message. -/
theorem text_ne_end {s : String} (h : s.toList ≠ endMessage.toList) :
    Message.text s ≠ .text endMessage := by
  intro heq
  injection heq with hs
  exact h (congrArg String.toList hs)

/-- Looking for an object only tells the user more. -/
theorem tellsOn_position (object : Value) : (position object).TellsOn := by
  unfold position
  split
  · split
    · exact Duty.tellsOn_conclude _
    · apply (Duty.tellsOn_see _).bind
      intro r
      split
      · exact Duty.tellsOn_pure _
      · exact Duty.tellsOn_throw _
  · exact Duty.tellsOn_throw _

/-- So does turning to it, -/
theorem tellsOn_faceTo (x : Float) : (faceTo x).TellsOn := by
  unfold faceTo
  split
  · apply (Duty.tellsOn_lift _).bind
    intro degrees
    exact (Duty.tellsOn_act _).discard
  · split
    · apply (Duty.tellsOn_lift _).bind
      intro degrees
      exact (Duty.tellsOn_act _).discard
    · exact Duty.tellsOn_pure _

/-- going to it -/
theorem tellsOn_approach (object : Value) : (approach object).TellsOn := by
  unfold approach
  apply (tellsOn_position object).bind
  intro x
  apply (tellsOn_faceTo x).bind
  intro _
  apply (Duty.tellsOn_act _).discard.bind
  intro _
  exact Duty.tellsOn_pure _

/-- and asking the language model about what is seen. -/
theorem tellsOn_probe (question : Value) : (probe question).TellsOn := by
  unfold probe
  apply (Duty.tellsOn_see _).bind
  intro scene
  apply (Duty.tellsOn_conclude _).bind
  intro shown
  apply (Duty.tellsOn_consult _).bind
  intro reply
  split
  · exact Duty.tellsOn_throw _
  · exact (Duty.tellsOn_conclude _).map _

/-- A picture is shown if there is one. -/
theorem tellsOn_takePicture : takePicture.TellsOn := by
  intro p
  cases hlatest : p.latest with
  | none =>
      cases p
      cases hlatest
      exact .of_mailbox rfl rfl
  | some frame =>
      cases p
      cases hlatest
      exact ⟨⟨[.picture _], rfl, List.count_eq_zero.2 (by simp)⟩, rfl⟩

/-- **No ability tells the user that no more will come.** -/
theorem Ability.tellsOn_perform (a : Ability) (arguments : List Value) :
    (a.perform arguments).TellsOn := by
  unfold Ability.perform
  split
  · exact (Duty.tellsOn_act _).map _
  · exact (Duty.tellsOn_act _).map _
  · apply (Duty.tellsOn_see _).bind
    intro _
    exact Duty.tellsOn_pure _
  · exact Duty.tellsOn_see _
  · exact tellsOn_probe _
  · apply (Duty.tellsOn_conclude _).bind
    intro shown
    apply (Duty.tellsOn_tell ?_).bind
    · intro _
      exact Duty.tellsOn_pure _
    · apply text_ne_end
      simp [endMessage]
  · exact tellsOn_takePicture
  · exact Duty.tellsOn_pure _
  · exact tellsOn_approach _
  · apply (Duty.tellsOn_see _).bind
    intro now
    apply Duty.tellsOn_get.bind
    intro p
    exact Duty.tellsOn_pure _
  · exact Duty.tellsOn_throw _

/-- No basic skill does. -/
theorem tellsOn_performSkill (skill : BasicSkill) (arguments : List Value) :
    (performSkill skill arguments).TellsOn := by
  unfold performSkill
  split
  · exact Ability.tellsOn_perform _ _
  · exact Duty.tellsOn_throw _

/-! ### Plans -/

/-- Plans that call the pilot's skills only tell the user more. -/
def tellingConduct (c : Collection) : Conduct (kit c) :=
  Conduct.ofWorld (kit c) TellsOn (fun _ _ => True) TellsOn.refl TellsOn.trans
    (fun _ _ => trivial)
    fun skill arguments p => ⟨tellsOn_performSkill skill arguments p, fun _ _ => trivial⟩

/-- The messages that show a plan end with the mark that the line goes on. -/
theorem chunkMessage_ne_end (s : String) : Message.text (chunkMessage s) ≠ .text endMessage := by
  apply text_ne_end
  intro heq
  have hlast := congrArg List.getLast? heq
  simp [chunkMessage, endMessage] at hlast

/-- What is shown of a chunk ends so. -/
theorem Executor.shown_take (e : Executor) (chunk : Chunk) {m : String}
    (hm : m ∈ (e.take chunk).2.1) : ∃ s, m = chunkMessage s := by
  unfold Executor.take at hm
  split at hm
  · cases hm
  · simp only [Intake.take] at hm
    split at hm
    · cases hm
    · cases hm
    · rename_i s _
      split at hm
      · cases hm
      · exact ⟨s, List.mem_singleton.1 hm⟩

/-- What is shown of a plan consists of such messages. -/
theorem Executor.shown_takeAll (e : Executor) (chunks : List Chunk) {m : String}
    (hm : m ∈ (e.takeAll chunks).2.1) : ∃ s, m = chunkMessage s := by
  induction chunks generalizing e with
  | nil => cases hm
  | cons chunk rest ih =>
      have hfirst (m : String) (hm : m ∈ (e.take chunk).2.1) := Executor.shown_take e chunk hm
      rw [Executor.takeAll] at hm
      cases htake : e.take chunk with
      | mk e' out =>
          obtain ⟨shown, r⟩ := out
          rw [htake] at hm hfirst
          cases r with
          | more =>
              rcases List.mem_append.1 hm with hm | hm
              · exact hfirst m hm
              · exact ih e' hm
          | closed => exact hfirst m hm
          | failed f => exact hfirst m hm

/-- The characters of a plan, each a chunk of its own. -/
def planChunks (code : String) : List Chunk :=
  code.toList.map fun c => .text (String.singleton c)

/-- The user has been shown a plan as far as it could be read. -/
def showing (code : String) (p : Pilot) : Pilot :=
  { p with
    mailbox := p.mailbox.map fun ms =>
      ms ++ (({} : Executor).read (planChunks code)).2.2.map .text }

/-- The lines that show the plan do not tell of an end. -/
theorem tellsOn_showing (code : String) (p : Pilot) : TellsOn p (showing code p) := by
  refine ⟨⟨_, rfl, List.count_eq_zero.2 ?_⟩, rfl⟩
  intro hend
  obtain ⟨m, hm, heq⟩ := List.mem_map.1 hend
  obtain ⟨s, rfl⟩ := Executor.shown_takeAll _ _ hm
  exact chunkMessage_ne_end s heq

/-- A plan is read as its text. -/
theorem readAll_planChunks (code : String) :
    ({} : Intake).readAll (planChunks code) = ({} : Intake).feed code.toList := by
  rw [Intake.readAll_eq_feed {} (by simp [planChunks])]
  congr 1
  simp [planChunks, List.flatMap_map, Chunk.content]

/-- The pilot when a plan has been read: nothing of it has been done yet. -/
def atWork (code : String) (p : Pilot) : Pilot := { showing code p with history := some [] }

/-- What comes next for a mission that gets the result that it waits for. -/
def resumed (p : Pilot) : Pilot := (endMission.run.run p).2

/-- The executor that has read a plan. -/
def executorOf (code : String) : Executor := (Executor.read {} (planChunks code)).2.1

/-- A plan is executed, along with the executors left over. -/
def contest (code : String) (p : Pilot) : Executor × List Stray × Pilot :=
  (executorOf code).share (kit p.collection) resumed (executorOf code).queue (p.rivalry.current [])
    p.strays (atWork code p)

/-- What the pilot makes of the execution of a plan: a result that does not come is waited for. -/
def report (done : Executor × List Stray × Pilot) : Except Breakdown Result × Pilot :=
  let p :=
    { done.2.2 with
      strays := done.2.1
      rivalry := done.2.2.rivalry.advance
      history := done.2.2.history.map fun _ => done.1.renderHistory }
  match done.1.activity with
  | .ended r => (.ok r, p)
  | .halted h => (.error (.stall h), p)
  | .idle => (.error (.stall .stall), p.leave { expected := done.1.expected, awaited := true })
  | .waiting _ => (.error (.stall .stall), p)

/-- Reporting on a plan sends no message. -/
theorem report_mailbox (done : Executor × List Stray × Pilot) :
    (report done).2.mailbox = done.2.2.mailbox := by
  unfold report
  cases done.1.activity <;> rfl

/-- A plan is shown and read, and then executed. -/
theorem runPlan_some (code : String) (p : Pilot) :
    runPlan (some code) p =
      match (({} : Executor).read (planChunks code)).1 with
      | .error f => (.error (.fault f), (showing code p).leave abandoned)
      | .ok () => report (contest code p) := rfl

/-- A plan that cannot be read is shown as far as it was read. -/
theorem runPlan_unreadable {code : String} {f : Fault}
    (hread : (({} : Intake).feed code.toList).2 = .failed f) (p : Pilot) :
    runPlan (some code) p = (.error (.fault f), (showing code p).leave abandoned) := by
  rw [runPlan_some, Executor.read_outcome, readAll_planChunks, hread]

/-- A plan that can be read is executed. -/
theorem runPlan_readable {code : String}
    (hread : ∀ f, (({} : Intake).feed code.toList).2 ≠ .failed f) (p : Pilot) :
    runPlan (some code) p = report (contest code p) := by
  rw [runPlan_some, Executor.read_outcome, readAll_planChunks]
  cases hfinal : (({} : Intake).feed code.toList).2 with
  | failed f => exact absurd hfinal (hread f)
  | more => rfl
  | closed => rfl

/-- The end of a mission adds one message, and then the last one. -/
theorem tells_endMission (p : Pilot) :
    ∃ p', TellsOn p p' ∧ (resumed p).mailbox = p'.mailbox.map (· ++ [.text endMessage]) := by
  have hended : Message.text taskEnded ≠ .text endMessage := by decide
  exact ⟨_, Duty.tellsOn_tell hended p, rfl⟩

/-- A mission that was waiting and is resumed tells of one end. -/
theorem tells_resumed (p : Pilot) : Tells 1 p (resumed p) := by
  obtain ⟨p', htells, hmailbox⟩ := tells_endMission p
  have hlast : Tells 1 p' (resumed p) :=
    ⟨[.text endMessage], hmailbox, List.count_singleton_self⟩
  exact htells.told.trans hlast

/-- Since some pilot, the user has been told that no more will come at most once for each executor
left over that was waited for and is gone. -/
def ToldFor (p : Pilot) (strays : List Stray) (p' : Pilot) : Prop :=
  ∃ n, Tells n p p' ∧ n + awaiting strays ≤ awaiting p.strays

/-- Sharing the queue tells of an end only for missions that were waiting. -/
theorem shares_toldFor (c : Collection) (p : Pilot) :
    (tellingConduct c).Shares resumed (ToldFor p) where
  onward := by
    rintro strays w w' ⟨n, htells, hbound⟩ hleads
    exact ⟨n, htells.trans hleads.told, hbound⟩
  others := by
    rintro strays i s w stage hs ⟨n, htells, hbound⟩
    rcases Stray.serve_awaiting resumed hs w stage with ⟨hworld, hfewer⟩ | ⟨hworld, hfewer⟩
    · refine ⟨n, ?_, by omega⟩
      rw [hworld]
      exact htells
    · refine ⟨n + 1, ?_, by omega⟩
      rw [hworld]
      exact htells.trans (tells_resumed w)

/-- **A plan tells the user that no more will come only for earlier missions** that still waited:
at most once for each. -/
theorem tells_runPlan (code : Option String) (p : Pilot) :
    ∃ n ≤ awaiting p.strays, Tells n p (runPlan code p).2 := by
  cases code with
  | none => exact ⟨0, Nat.zero_le _, (TellsOn.refl p).told⟩
  | some code =>
      have hshown := tellsOn_showing code p
      by_cases hfailed : ∃ f, (({} : Intake).feed code.toList).2 = .failed f
      · obtain ⟨f, hread⟩ := hfailed
        rw [runPlan_unreadable hread]
        exact ⟨0, Nat.zero_le _, hshown.told⟩
      · have hread : ∀ f, (({} : Intake).feed code.toList).2 ≠ .failed f := not_exists.1 hfailed
        have htold : ToldFor p p.strays (atWork code p) := ⟨0, hshown.told, by omega⟩
        obtain ⟨n, ⟨new, hnew, hcount⟩, hbound⟩ :=
          (shares_toldFor p.collection p).share_keeps (fun _ _ => trivial)
            (Executor.startable_read (readAll_planChunks code ▸ hread)) (p.rivalry.current []) htold
        rw [runPlan_readable hread]
        refine ⟨n, by omega, new, ?_, hcount⟩
        rw [report_mailbox]
        exact hnew

/-- Making a plan for a mission only tells the user more. -/
theorem tellsOn_beginMission (task : String) : (beginMission task).TellsOn := by
  have htask : Message.text (taskLine task) ≠ .text endMessage := by
    apply text_ne_end
    simp [taskLine, endMessage]
  have hplan : Message.text planLine ≠ .text endMessage := by decide
  unfold beginMission makePlan
  apply (Duty.tellsOn_tell htask).bind
  intro _
  apply Duty.tellsOn_get.bind
  intro p
  apply Duty.TellsOn.bind
  · apply (Duty.tellsOn_see _).bind
    intro scene
    apply Duty.tellsOn_get.bind
    intro p
    exact Duty.tellsOn_consult _
  · intro plan
    refine Duty.TellsOn.bind (Duty.tellsOn_modify ?_ ?_) ?_
    · exact fun _ => rfl
    · exact fun _ => rfl
    intro _
    apply (Duty.tellsOn_tell hplan).bind
    intro _
    apply (Duty.tellsOn_see _).bind
    intro now
    refine Duty.TellsOn.bind (Duty.tellsOn_modify ?_ ?_) ?_
    · exact fun _ => rfl
    · exact fun _ => rfl
    intro _
    exact Duty.tellsOn_pure _

end DronePilot.Pilot
