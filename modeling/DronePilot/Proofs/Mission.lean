import DronePilot.Chat.Page
import DronePilot.Proofs.Messages

/-!
# Which missions end

The user waits for the message that says that no more will come.  A mission ends with it if there is
a plan that comes to something: the language model answered without a text, or with a text that
cannot be read, which is noticed at once; or the plan delivers a result.  It does not end if the
robot is still on the ground, if the scene cannot be described, or if the executor halts or has
nothing to deliver, since then a result is waited for that never comes.  That may be because
executors left over from earlier missions have taken statements of the plan.

* `Settles`, `Concludes` — the missions that end.
* `runPlan_stalls_iff` — a result is waited for in vain exactly if the plan does not settle.
* `mission_ends_iff` — the last message comes, once and at the end, exactly if the mission
  concludes; and so ends the answer on the page.
* `pictureless_never_ends`, `rivaled_never_ends` — missions that do not end.
-/

namespace DronePilot.Pilot

open DronePilot.Plan DronePilot.Chat

/-- The plan is not waited for in vain: there is none, it cannot be read, or its executor delivers a
result.  Without executors left over, that is when the plan delivers one; with such, when enough is
left to the executor. -/
inductive Settles (code : Option String) (p : Pilot) : Prop
  | missing (h : code = none)
  | unreadable {text : String} {f : Fault} (h : code = some text)
      (hread : (({} : Intake).feed text.toList).2 = .failed f)
  | alone {text : String} (h : code = some text) (halone : p.strays = [])
      (hdelivers : Delivers (kit p.collection) (({} : Intake).feed text.toList).1.program
        (atWork text p))
  | contested {text : String} (h : code = some text)
      (hobtains : Executor.Obtains (kit p.collection) resumed (executorOf text).queue
        (p.rivalry.current []) (executorOf text) p.strays (atWork text p))

/-- The mission ends: the robot is in the air, there is an answer to the request for a plan, and
that plan settles. -/
def Concludes (task : String) (p : Pilot) : Prop :=
  p.grounded = false ∧
    ∃ plan p', (beginMission task).run.run p = (.ok plan, p') ∧ Settles plan p'

section

variable {text : String} (hread : ∀ f, (({} : Intake).feed text.toList).2 ≠ .failed f) (p : Pilot)

include hread

theorem activity_executorOf : (executorOf text).activity = .idle := by
  rw [executorOf, Executor.read_eq (readAll_planChunks text ▸ hread)]

/-- Without executors left over, the executor delivers a result exactly if the plan does. -/
theorem contest_alone_iff (halone : p.strays = []) :
    (∃ r, (contest text p).1.activity = .ended r) ↔
      Delivers (kit p.collection) (({} : Intake).feed text.toList).1.program (atWork text p) := by
  have hidle := activity_executorOf hread
  have hdelivers := Executor.delivers_iff (kit p.collection) (atWork text p)
    (readAll_planChunks text ▸ hread)
  rw [readAll_planChunks] at hdelivers
  rw [← hdelivers, contest, halone, Executor.share_alone _ _ hidle, ← executorOf,
    Executor.turn_of_idle hidle]

/-- A plan that can be read settles exactly if its executor delivers a result. -/
theorem settles_iff_of_readable :
    Settles (some text) p ↔ ∃ r, (contest text p).1.activity = .ended r := by
  have hobtains : (∃ r, (contest text p).1.activity = .ended r) ↔ _ :=
    Executor.share_ends_iff (by simp [activity_executorOf hread])
  constructor
  · intro h
    cases h with
    | missing h => cases h
    | unreadable h hfailed =>
        cases h
        exact absurd hfailed (hread _)
    | alone h halone hdelivers =>
        cases h
        exact (contest_alone_iff hread p halone).2 hdelivers
    | contested h h' =>
        cases h
        exact hobtains.2 h'
  · intro h
    exact .contested rfl (hobtains.1 h)

end

/-- The pilot waits in vain for an executor that has delivered nothing. -/
theorem report_stalls_iff (done : Executor × List Stray × Pilot) :
    (∃ h, (report done).1 = .error (.stall h)) ↔ ¬∃ r, done.1.activity = .ended r := by
  unfold report
  cases done.1.activity with
  | ended r => simp
  | halted h => simp
  | idle => simp
  | waiting pending => simp

/-- **A result is waited for in vain exactly if the plan does not settle.** -/
theorem runPlan_stalls_iff (code : Option String) (p : Pilot) :
    (∃ h, (runPlan code p).1 = .error (.stall h)) ↔ ¬Settles code p := by
  cases code with
  | none =>
      constructor
      · intro hstalls
        obtain ⟨h, hstall⟩ := hstalls
        cases hstall
      · intro hsettles
        exact absurd (.missing rfl) hsettles
  | some text =>
      by_cases hfailed : ∃ f, (({} : Intake).feed text.toList).2 = .failed f
      · obtain ⟨f, hread⟩ := hfailed
        rw [runPlan_unreadable hread]
        constructor
        · intro hstalls
          obtain ⟨h, hstall⟩ := hstalls
          cases hstall
        · intro hsettles
          exact absurd (.unreadable rfl hread) hsettles
      · have hread : ∀ f, (({} : Intake).feed text.toList).2 ≠ .failed f := not_exists.1 hfailed
        rw [runPlan_readable hread, report_stalls_iff, settles_iff_of_readable hread]

/-! ### The mission -/

/-- **A mission that concludes ends with the last message.**  Those of earlier missions that were
waiting may come before it. -/
theorem carryOut_of_concludes {task : String} {p : Pilot} (h : Concludes task p) :
    (carryOut task p).1 = .ok () ∧
      ∃ n ≤ awaiting p.strays, ∃ p', Tells n p p' ∧
        (carryOut task p).2.mailbox = p'.mailbox.map (· ++ [.text endMessage]) := by
  obtain ⟨hair, plan, p₁, hbegin, hsettles⟩ := h
  have hbegun : TellsOn p p₁ := by
    have htells := tellsOn_beginMission task p
    rw [hbegin] at htells
    exact htells
  obtain ⟨n, hbound, hran⟩ := tells_runPlan plan p₁
  rw [hbegun.strays] at hbound
  have hcomes : ¬∃ h, (runPlan plan p₁).1 = .error (.stall h) := by
    rw [runPlan_stalls_iff]
    exact not_not_intro hsettles
  simp only [carryOut, hair, Bool.false_eq_true, if_false, hbegin]
  generalize runPlan plan p₁ = done at hran hcomes
  obtain ⟨outcome, p₂⟩ := done
  obtain ⟨p₃, hlast, hmailbox⟩ := tells_endMission p₂
  have htells : Tells n p p₃ := by
    have hsum := (hbegun.told.trans hran).trans hlast.told
    rwa [Nat.zero_add, Nat.add_zero] at hsum
  cases outcome with
  | ok r => exact ⟨rfl, n, hbound, p₃, htells, hmailbox⟩
  | error b =>
      cases b with
      | fault f => exact ⟨rfl, n, hbound, p₃, htells, hmailbox⟩
      | stall cause => exact absurd ⟨cause, rfl⟩ hcomes

/-- **A mission that does not conclude never comes to the last message.**  The robot is on the
ground, or the pilot breaks off or waits. -/
theorem carryOut_of_not_concludes {task : String} {p : Pilot} (h : ¬Concludes task p) :
    (p.grounded = true ∨ ∃ b, (carryOut task p).1 = .error b) ∧
      ∃ n ≤ awaiting p.strays, Tells n p (carryOut task p).2 := by
  have hwarning : Message.text groundedWarning ≠ .text endMessage := by decide
  cases hground : p.grounded with
  | true =>
      refine ⟨Or.inl rfl, 0, Nat.zero_le _, ?_⟩
      simp only [carryOut, hground, if_true]
      exact (Duty.tellsOn_tell hwarning p).told
  | false =>
      have hbegun := tellsOn_beginMission task p
      simp only [carryOut, hground, Bool.false_eq_true, if_false]
      cases hbegin : (beginMission task).run.run p with
      | mk outcome p₁ =>
          rw [hbegin] at hbegun
          cases outcome with
          | error f => exact ⟨Or.inr ⟨_, rfl⟩, 0, Nat.zero_le _, hbegun.told⟩
          | ok plan =>
              have hstalls : ∃ h, (runPlan plan p₁).1 = .error (.stall h) := by
                rw [runPlan_stalls_iff]
                intro hsettles
                exact h ⟨hground, plan, p₁, hbegin, hsettles⟩
              obtain ⟨n, hbound, hran⟩ := tells_runPlan plan p₁
              rw [hbegun.strays] at hbound
              obtain ⟨cause, hstall⟩ := hstalls
              simp only
              generalize runPlan plan p₁ = done at hran hstall
              obtain ⟨outcome, p₂⟩ := done
              cases hstall
              refine ⟨Or.inr ⟨_, rfl⟩, n, hbound, ?_⟩
              have hsum := hbegun.told.trans hran
              rwa [Nat.zero_add] at hsum

/-! ### The answer on the page -/

/-- The answer to a message is complete exactly if the last message is among those that came. -/
theorem ending_said_iff (cause : Option Halt) (shown : String) (ms : List Message) :
    (∃ s, (showMessages cause shown ms).ending = .said s) ↔ Message.text endMessage ∈ ms := by
  induction ms generalizing shown with
  | nil => simp [showMessages]
  | cons m rest ih =>
      cases m with
      | picture file => simp [showMessages, ih]
      | text s =>
          by_cases hs : s = endMessage
          · simp [showMessages, hs]
          · simp [showMessages, hs, Ne.symm hs, ih]

/-- The answer to a task is complete exactly if the pilot sent the last message. -/
theorem receive_said_iff (page : Page) {task : String} (hexit : task ≠ exitCommand)
    (hempty : task ≠ "") :
    (∃ s, (page.receive task).1.ending = .said s) ↔
      Message.text endMessage ∈ (carryOut task page.pilot).2.mailbox.getD [] := by
  have htask : task.isEmpty = false := by simpa using hempty
  simp only [Page.receive, hexit, htask, if_false, Bool.false_eq_true]
  exact ending_said_iff _ _ _

/-- **Which missions end.**  Take any task, any pilot with messages that nobody has read yet, any
answer of the language model, any behaviour of the robot and any executors left over from earlier
missions.  If the mission concludes, the pilot comes to its end and the last message is sent, after
all others.  If it does not, the mission never sends the last message: the robot is still on the
ground, or the pilot breaks off, or it waits for a result for ever.  Otherwise the last message is
sent only by earlier missions that were still waiting, at most once by each.  The answer on the page
is complete if the mission concludes, and only then if no earlier one was waiting. -/
theorem mission_ends_iff (task : String) (p : Pilot) (ms : List Message)
    (hmailbox : p.mailbox = some ms) :
    (Concludes task p →
      (carryOut task p).1 = .ok () ∧
      ∃ new, new.count (.text endMessage) ≤ awaiting p.strays ∧
        (carryOut task p).2.mailbox = some (ms ++ new ++ [.text endMessage])) ∧
    (¬Concludes task p →
      (p.grounded = true ∨ ∃ b, (carryOut task p).1 = .error b) ∧
      ∃ new, new.count (.text endMessage) ≤ awaiting p.strays ∧
        (carryOut task p).2.mailbox = some (ms ++ new)) ∧
    (∀ page : Page, page.pilot = p → task ≠ exitCommand → task ≠ "" →
      (Concludes task p → ∃ s, (page.receive task).1.ending = .said s) ∧
      (Message.text endMessage ∉ ms → awaiting p.strays = 0 →
        (∃ s, (page.receive task).1.ending = .said s) → Concludes task p)) := by
  have hends : Concludes task p → (carryOut task p).1 = .ok () ∧
      ∃ new, new.count (.text endMessage) ≤ awaiting p.strays ∧
        (carryOut task p).2.mailbox = some (ms ++ new ++ [.text endMessage]) := by
    intro h
    obtain ⟨hok, n, hbound, p', ⟨new, hp', rfl⟩, hlast⟩ := carryOut_of_concludes h
    refine ⟨hok, new, hbound, ?_⟩
    rw [hlast, hp', hmailbox]
    rfl
  have hgoes : ¬Concludes task p → (p.grounded = true ∨ ∃ b, (carryOut task p).1 = .error b) ∧
      ∃ new, new.count (.text endMessage) ≤ awaiting p.strays ∧
        (carryOut task p).2.mailbox = some (ms ++ new) := by
    intro h
    obtain ⟨hbreaks, n, hbound, new, hp', rfl⟩ := carryOut_of_not_concludes h
    refine ⟨hbreaks, new, hbound, ?_⟩
    rw [hp', hmailbox]
    rfl
  refine ⟨hends, hgoes, ?_⟩
  intro page hpage hexit hempty
  subst hpage
  rw [receive_said_iff page hexit hempty]
  refine ⟨fun h => ?_, fun hms hnobody hsaid => ?_⟩
  · obtain ⟨-, new, -, hmailbox'⟩ := hends h
    simp [hmailbox']
  · by_contra h
    obtain ⟨-, new, hbound, hmailbox'⟩ := hgoes h
    rw [hnobody, Nat.le_zero, List.count_eq_zero] at hbound
    simp [hmailbox', hms, hbound] at hsaid

/-! ### A pilot without a picture -/

/-- The language model is asked for a plan if the scene can be described. -/
theorem run_makePlan (task history : String) {p : Pilot} {scene : String} {sight : Vision.Sight}
    (h : p.sight.describe = (.ok scene, sight)) :
    ∃ p', (makePlan task none history).run.run p =
        (.ok (p.assistant.replies.current (some Planner.Assistant.defaultReply)), p') ∧
      p'.collection = p.collection ∧ p'.latest = p.latest ∧ p'.rivalry = p.rivalry := by
  have hdescribe : Duty.describe.run.run p = (.ok scene, { p with sight := sight }) := by
    have hsee : Duty.describe.run.run p =
        (p.sight.describe.1, { p with sight := p.sight.describe.2 }) := rfl
    rw [hsee, h]
  unfold makePlan
  simp only
  rw [Duty.run_bind_ok hdescribe]
  exact ⟨_, rfl, rfl, rfl, rfl⟩

/-- A mission begins with the answer of the language model. -/
theorem run_beginMission (task : String) {p : Pilot} {scene : String} {sight : Vision.Sight}
    (h : p.sight.describe = (.ok scene, sight)) :
    ∃ p', (beginMission task).run.run p =
        (.ok (p.assistant.replies.current (some Planner.Assistant.defaultReply)), p') ∧
      p'.collection = p.collection ∧ p'.latest = p.latest ∧ p'.rivalry = p.rivalry := by
  have htell (q : Pilot) (m : Message) : (Duty.tell m).run.run q =
      (.ok (), { q with mailbox := q.mailbox.map fun ms => ms ++ [m] }) := rfl
  have hget (q : Pilot) : (get : Duty Pilot).run.run q = (.ok q, q) := rfl
  unfold beginMission
  rw [Duty.run_bind_ok (htell p _), Duty.run_bind_ok (hget _)]
  obtain ⟨p', hplan, hsame⟩ :=
    run_makePlan task (historyText p.history)
      (p := { p with mailbox := p.mailbox.map fun ms => ms ++ [.text (taskLine task)] }) h
  rw [Duty.run_bind_ok hplan]
  exact ⟨_, rfl, hsame⟩

/-- A pilot in the air that can take pictures but has none to show yet.  The language model answers
with the text. -/
def pictureless (answer : String) : Pilot where
  collection :=
    { sets := #[{ level := .low, lower := none
                  skills := .ofList [("take_picture",
                    .basic { name := "take_picture", abbreviation := "tp" })] }] }
  robot := .virtual {}
  sight := { scene := { shared := { frame := .blank, result := .dict [("result", .list [])] } } }
  client := { link := .direct }
  assistant := { replies := { answers := [some answer] } }
  grounded := false
  began := 0

theorem pictureless_describes (answer : String) :
    ∃ scene sight, (pictureless answer).sight.describe = (.ok scene, sight) := by
  unfold Vision.Sight.describe Vision.Sight.refresh
  split
  · rename_i f s hrefresh
    split at hrefresh
    · cases hrefresh
    · cases hrefresh
  · exact ⟨_, _, rfl⟩

/-- Its missions begin with that text, without executors left over. -/
theorem pictureless_begins (task answer : String) :
    ∃ p', (beginMission task).run.run (pictureless answer) = (.ok (some answer), p') ∧
      p'.collection = (pictureless answer).collection ∧ p'.latest = none ∧ p'.strays = [] := by
  obtain ⟨scene, sight, hscene⟩ := pictureless_describes answer
  obtain ⟨p', hbegin, hcollection, hlatest, -⟩ := run_beginMission task hscene
  have hbegun := tellsOn_beginMission task (pictureless answer)
  rw [hbegin] at hbegun
  exact ⟨p', hbegin, hcollection, hlatest, hbegun.strays⟩

/-- A plan that only returns delivers a result. -/
theorem concludes_return (task : String) : Concludes task (pictureless "->True;") := by
  obtain ⟨p', hbegin, -, -, halone⟩ := pictureless_begins task "->True;"
  have hstatements : (({} : Intake).feed "->True;".toList).1.program.statements =
      [.action { text := "->True", named := true }] := rfl
  have hrun : (runToEnd (kit p'.collection).call
      (({} : Intake).feed "->True;".toList).1.program.statements .none).exec
      { world := atWork "->True;" p' } =
        (.ok { value := .bool true, replan := true },
          { world := atWork "->True;" p', returned := true }) := by
    rw [hstatements, runToEnd, Run.exec_bind_ok (exec_run_give _ _)]
    rfl
  have hsome : (({} : Intake).feed "->True;".toList).1.program.statements ≠ [] := by
    rw [hstatements]
    simp
  exact ⟨rfl, _, p', hbegin, .alone rfl halone (.statements hsome hrun)⟩

theorem mission_ends_iff_return :
    (pictureless "->True;").mailbox = some [] ∧
      Concludes "look" (pictureless "->True;") ∧
      (carryOut "look" (pictureless "->True;")).1 = .ok () ∧
      (∃ new, Message.text endMessage ∉ new ∧
        (carryOut "look" (pictureless "->True;")).2.mailbox =
          some ([] ++ new ++ [.text endMessage])) ∧
      (∃ s, (({ pilot := pictureless "->True;" } : Page).receive "look").1.ending = .said s) := by
  have hmailbox : (pictureless "->True;").mailbox = some [] := rfl
  have hconcludes := concludes_return "look"
  obtain ⟨hends, -, hpage⟩ := mission_ends_iff "look" (pictureless "->True;") [] hmailbox
  obtain ⟨hok, new, hnobody, hlast⟩ := hends hconcludes
  have hnew : Message.text endMessage ∉ new := List.count_eq_zero.1 (Nat.le_zero.1 hnobody)
  exact ⟨hmailbox, hconcludes, hok, ⟨new, hnew, hlast⟩,
    (hpage { pilot := pictureless "->True;" } rfl (by decide) (by decide)).1 hconcludes⟩

/-- Taking a picture fails where there is none to show. -/
theorem exec_run_takePicture {answer : String} {p : Pilot}
    (hcollection : p.collection = (pictureless answer).collection) (hlatest : p.latest = none) :
    (((Statement.action { text := "take_picture", named := true }).run (kit p.collection).call
      .fresh).exec { world := p }).1 = .error (.fault .noSuchPart) := by
  have htext : Expr.ofText "take_picture".toList =
      .call { name := "take_picture", arguments := [] } := by
    rw [Expr.ofText]
    rfl
  have hperform : ((kit p.collection).perform
      { name := "take_picture", abbreviation := "tp" } [] p).1 = .error (.fault .noSuchPart) := by
    cases p
    cases hlatest
    rfl
  have hfind : (kit p.collection).find? "take_picture" =
      some (.basic { name := "take_picture", abbreviation := "tp" }) := by
    rw [hcollection]
    rfl
  have hcall : (((kit p.collection).call { name := "take_picture", arguments := [] }).exec
      { world := p }).1 = .error (.fault .noSuchPart) := by
    rw [Toolkit.call, maxCallDepth, Toolkit.exec_callWithin_performs rfl hfind rfl (by simp) rfl]
    exact hperform
  rw [Statement.exec_run_action rfl htext, Run.exec_bind, Expr.eval]
  generalize ((kit p.collection).call { name := "take_picture", arguments := [] }).exec
    { world := p } = done at hcall
  obtain ⟨outcome, s⟩ := done
  cases hcall
  rfl

/-- **A skill that fails leaves the user waiting.**  The plan asks for a picture, and there is none:
the executor halts, a result is waited for that never comes, and the last message is not sent. -/
theorem pictureless_never_ends :
    (∃ cause, (carryOut "look" (pictureless "take_picture;")).1 = .error (.stall cause)) ∧
      (∃ ms, (carryOut "look" (pictureless "take_picture;")).2.mailbox = some ms ∧
        Message.text endMessage ∉ ms) ∧
      ¬∃ s, (({ pilot := pictureless "take_picture;" } : Page).receive "look").1.ending =
        .said s := by
  obtain ⟨p', hbegin, hcollection, hlatest, halone⟩ :=
    pictureless_begins "look" "take_picture;"
  have hstatements : (({} : Intake).feed "take_picture;".toList).1.program.statements =
      [.action { text := "take_picture", named := true }] := rfl
  have hread : ∀ f, (({} : Intake).feed "take_picture;".toList).2 ≠ .failed f := by
    intro f hfailed
    cases hfailed
  have hrun := exec_run_takePicture (p := atWork "take_picture;" p') hcollection hlatest
  have hstalls : ¬Settles (some "take_picture;") p' := by
    rw [settles_iff_of_readable hread, contest_alone_iff hread p' halone]
    intro hdelivers
    cases hdelivers with
    | statements _ hok =>
        rw [hstatements, runToEnd] at hok
        obtain ⟨x, s₁, hfirst, -⟩ := Run.ok_of_exec_bind hok
        have hfailed : (.ok x : Except Halt (Result × Mark)) = .error (.fault .noSuchPart) := by
          rw [← hrun]
          exact (congrArg Prod.fst hfirst).symm
        cases hfailed
    | block hnone _ _ =>
        rw [hstatements] at hnone
        cases hnone
  have hwaits : ¬Concludes "look" (pictureless "take_picture;") := by
    intro hconcludes
    obtain ⟨-, plan, q, hbegin', hsettles⟩ := hconcludes
    rw [hbegin] at hbegin'
    cases hbegin'
    exact hstalls hsettles
  obtain ⟨-, n, hbound, new, hmailbox, rfl⟩ := carryOut_of_not_concludes hwaits
  have hnew : Message.text endMessage ∉ new := List.count_eq_zero.1 (Nat.le_zero.1 hbound)
  have hsent : (carryOut "look" (pictureless "take_picture;")).2.mailbox = some new := by
    rw [hmailbox]
    rfl
  refine ⟨?_, ⟨new, hsent, hnew⟩, ?_⟩
  · obtain ⟨cause, hstall⟩ := (runPlan_stalls_iff _ _).2 hstalls
    have hair : (pictureless "take_picture;").grounded = false := rfl
    simp only [carryOut, hair, Bool.false_eq_true, if_false, hbegin]
    generalize runPlan (some "take_picture;") p' = done at hstall
    obtain ⟨outcome, p₂⟩ := done
    cases hstall
    exact ⟨cause, rfl⟩
  · rw [receive_said_iff _ (by decide) (by decide), hsent]
    exact hnew

/-- The same pilot with an executor left over from a plan that could not be read, which is the
faster one to take a statement. -/
def rivaled (answer : String) : Pilot :=
  { pictureless answer with strays := [abandoned], rivalry := { answers := [[some 0]] } }

/-- The statement of the plan is taken by the executor left over, and the one of the plan has
nothing to deliver. -/
theorem rivaled_not_concludes (task : String) : ¬Concludes task (rivaled "->True;") := by
  rintro ⟨-, plan, p', hbegin, hsettles⟩
  obtain ⟨scene, sight, hscene⟩ := pictureless_describes "->True;"
  obtain ⟨q, hbegin', -, -, hrivalry⟩ := run_beginMission task (p := rivaled "->True;") hscene
  have hbegun := tellsOn_beginMission task (rivaled "->True;")
  rw [hbegin] at hbegun
  have hstrays : p'.strays = [abandoned] := hbegun.strays
  cases hbegin.symm.trans hbegin'
  have hread : ∀ f, (({} : Intake).feed "->True;".toList).2 ≠ .failed f := by
    intro f hfailed
    cases hfailed
  obtain ⟨r, hended⟩ := (settles_iff_of_readable hread p').1 hsettles
  have hqueue : (executorOf "->True;").queue = [{ plan := 0, position := 0 }] := rfl
  have hstage : ((executorOf "->True;").startNext (kit p'.collection)
      { plan := 0, position := 0 } [] (atWork "->True;" p')).1 = .ok (.done { value := .bool true, replan := true } true) := by
    have hstatement : (executorOf "->True;").statement { plan := 0, position := 0 } =
        .action { text := "->True", named := true } := rfl
    have hstart (s : Scope Pilot) := congrArg Prod.fst (Run.exec_bind_ok
      (exec_run_give (kit p'.collection).call s)
      fun x => (pure (.done x.1 x.2.returned) : Run Pilot Stage))
    rw [Executor.startNext, hstatement]
    exact hstart _
  rcases hstarted : (executorOf "->True;").startNext (kit p'.collection)
    { plan := 0, position := 0 } [] (atWork "->True;" p') with ⟨stage, e, world⟩
  obtain rfl : stage = _ := (congrArg Prod.fst hstarted).symm.trans hstage
  rw [contest, hstrays, hrivalry, hqueue, Executor.share_other rfl hstarted rfl] at hended
  have hidle := (Executor.unchanged_of_startNext hstarted).1.trans (activity_executorOf hread)
  simp [hidle] at hended

/-- **An executor left over can take a plan away.**  A plan that only returns concludes the mission
of a pilot that is alone; here a result is waited for that never comes, and the last message is not
sent. -/
theorem rivaled_never_ends (task : String) :
    (∃ b, (carryOut task (rivaled "->True;")).1 = .error b) ∧
      ∃ ms, (carryOut task (rivaled "->True;")).2.mailbox = some ms ∧
        Message.text endMessage ∉ ms := by
  obtain ⟨hbreaks, n, hbound, new, hmailbox, rfl⟩ :=
    carryOut_of_not_concludes (rivaled_not_concludes task)
  refine ⟨hbreaks.resolve_left (by simp [rivaled, pictureless]), new, hmailbox, ?_⟩
  exact List.count_eq_zero.1 (Nat.le_zero.1 hbound)

end DronePilot.Pilot
