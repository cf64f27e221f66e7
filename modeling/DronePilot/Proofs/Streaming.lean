import DronePilot.Proofs.Course

/-!
# Executing a plan while it is being read

A session in which neither side can move has read its plan and done all that can be done of it, and
since it stayed on course all the while it has done what every other session of the plan does.

* `Session.Tracks.effect_of_settled` — a settled session has the effect of evaluating the plan in
  order.
* `Session.Settled.agree` — the settled sessions of a plan agree.
* `streaming_matches_deferred` — so each of them does what an executor does that has its turn after
  all has been read.
-/

namespace DronePilot.Plan

variable {σ : Type}

namespace Session

section

variable {kit : Toolkit σ} {final : Intake × Reading} {world : σ} {s : Session σ} {a : Assignment}

/-- A session whose reader cannot move has concluded its plan. -/
theorem Tracks.phase_of_settled (h : s.Tracks kit final world a) (hread : s.read = s) :
    ∃ r, s.phase = .done r := by
  have hphase' : s.read.phase = s.phase := by rw [hread]
  cases hphase : s.phase with
  | done r => exact ⟨r, rfl⟩
  | read r =>
      rw [read_of_read hphase, hphase] at hphase'
      cases hphase'
  | reading text chunks =>
      cases text with
      | cons c text =>
          rw [read_character h.plans h.sound hphase, hphase] at hphase'
          revert hphase'
          cases (a.intake.feed [c]).2 <;> simp [Reading.leadsTo]
      | nil =>
          cases chunks with
          | nil =>
              rw [read_of_end hphase, hphase] at hphase'
              cases hphase'
          | cons chunk rest =>
              rw [read_of_chunk hphase, hphase] at hphase'
              unfold Chunk.opening at hphase'
              split at hphase' <;> simp at hphase'

theorem Tracks.intake_of_done (h : s.Tracks kit final world a) {r : Reading}
    (hphase : s.phase = .done r) : final = (a.intake, r) := by
  rw [← h.rest, hphase]
  rfl

/-- An idle executor that cannot move has done all statements of the plan. -/
theorem Tracks.effect_of_idle (h : s.Tracks kit final world a) (hsettled : s.Settled kit)
    (hactivity : s.executor.activity = .idle) :
    s.executor.history.length = final.1.program.issued ∧
      (inOrder kit.call final.1.program.startable).effect { world := world } =
        (.ok none, { world := s.world, bindings := a.bindings }) := by
  obtain ⟨r, hphase⟩ := h.phase_of_settled hsettled.read
  have hfinal := h.intake_of_done hphase
  subst hfinal
  have hcourse := h.course
  rw [hactivity] at hcourse
  cases hcourse with
  | idle hk hqueue heffect =>
      have hall : a.intake.program.issued ≤ s.executor.history.length := by
        refine Nat.le_of_not_lt fun hlt => ?_
        rw [tickets_of_lt hlt] at hqueue
        -- Otherwise the next move would add a statement to the history, or end the idleness.
        have hserve : (s.executor.serve kit s.world).1 = s.executor :=
          congrArg Session.executor hsettled.serve
        rw [Executor.serve_of_queue hactivity hqueue] at hserve
        have hhistory := (Executor.evaluate_of_idle (Prod.ext hserve rfl) hactivity).2
        simpa using congrArg List.length hhistory
      refine ⟨Nat.le_antisymm hk hall, ?_⟩
      rw [← heffect, Body.startable_drop_of_le hall]
      rfl

/-- An executor that waits and cannot move waits for a block that stays open. -/
theorem Tracks.effect_of_waiting (h : s.Tracks kit final world a) (hsettled : s.Settled kit)
    {p : Pending} (hactivity : s.executor.activity = .waiting p) :
    (∃ k < final.1.program.issued, (final.1.program.statementAt k).isOpenBlock = true) ∧
      (inOrder kit.call final.1.program.startable).effect { world := world } =
        (.ok none, { world := s.world, bindings := a.bindings }) := by
  obtain ⟨r, hphase⟩ := h.phase_of_settled hsettled.read
  have hfinal := h.intake_of_done hphase
  subst hfinal
  have hcourse := h.course
  rw [hactivity] at hcourse
  cases hcourse with
  | waiting hk hticket hqueue hfits heffect =>
      cases hexec : ((a.intake.program.statementAt s.executor.history.length).carryOn kit.call
          p.rounds p.last p.trail).exec { world := s.world, bindings := a.bindings } with
      | mk outcome scope =>
          have hserve := hsettled.serve
          rw [Session.serve, Executor.serve_of_waiting hactivity, hticket, h.statement,
            Executor.evaluate_eq h.plans hexec] at hserve
          have houtcome : outcome = .ok (.pending p.rounds p.last p.trail) := by
            apply Executor.outcome_of_book
            rw [← hactivity]
            exact congrArg (fun t => t.executor.activity) hserve
          subst houtcome
          have hwaits := hfits.waitsAt hexec
          refine ⟨⟨_, hk, hwaits.isOpenBlock⟩, ?_⟩
          rw [← heffect, Run.effect,
            Run.exec_bind_ok (hwaits.exec_carryOn kit.call p.rounds p.last _)]
          rfl

/-- **What a settled session has done**: the effect of evaluating the whole plan in order. -/
theorem Tracks.effect_of_settled (h : s.Tracks kit final world a) (hsettled : s.Settled kit) :
    a.intake = final.1 ∧
      ∃ outcome, (inOrder kit.call final.1.program.startable).effect { world := world } =
        (outcome, { world := s.world, bindings := a.bindings }) ∧
      ∀ f, outcome = .error f ↔ s.executor.activity = .halted f := by
  obtain ⟨r, hphase⟩ := h.phase_of_settled hsettled.read
  refine ⟨by rw [h.intake_of_done hphase], ?_⟩
  cases hactivity : s.executor.activity with
  | idle => exact ⟨_, (h.effect_of_idle hsettled hactivity).2, by simp⟩
  | waiting p => exact ⟨_, (h.effect_of_waiting hsettled hactivity).2, by simp⟩
  | ended r =>
      have hcourse := h.course
      rw [hactivity] at hcourse
      cases hcourse with
      | returned htarget => exact ⟨_, htarget, by simp⟩
      | counted htarget _ => exact ⟨_, htarget, by simp⟩
  | halted f =>
      have hcourse := h.course
      rw [hactivity] at hcourse
      cases hcourse with
      | halted htarget => exact ⟨_, htarget, by simp⟩

/-- After a move that comes to wait, the executor cannot move. -/
theorem Advanced.serve_self (h : s.Advanced kit final world a) {p : Pending}
    (hactivity : s.executor.activity = .waiting p) : s.serve kit = s := by
  have hcourse := h.tracks.course
  have hplans := h.tracks.plans
  rw [hactivity] at hcourse
  cases hcourse with
  | waiting _ hticket _ _ _ =>
      rw [Session.serve, Executor.serve_of_waiting hactivity, hticket, h.tracks.statement,
        Executor.evaluate_eq hplans ((h.waits p hactivity).exec_carryOn _ _ _ _)]
      have hsame : ({ s.executor with plans := #[a] }.book
          { plan := 0, position := s.executor.history.length }
          (.ok (.pending p.rounds p.last p.trail))) = s.executor := by
        rw [Executor.book, ← hticket, ← hplans, ← hactivity]
      rw [hsame]
      exact after_self s

/-- A session at the end of a turn is settled if its plan is concluded. -/
theorem Rested.settled {chunks : List Chunk} (hend : LeavesNoneOpen (({} : Intake).readAll chunks))
    (h : Rested kit chunks world s) {r : Reading} (hphase : s.phase = .done r) :
    s.Settled kit := by
  refine ⟨read_of_done hphase, ?_⟩
  rcases h.rests with hserve | ⟨t, p, ht, rfl, hactivity⟩
  · exact hserve
  · obtain ⟨a, ha⟩ := ht.tracks hend
    obtain ⟨bindings, hadvanced⟩ := ha.serve hend
    exact hadvanced.serve_self hactivity

/-- Settled sessions of one plan have done the same. -/
theorem Settled.agree {chunks : List Chunk} (hend : LeavesNoneOpen (({} : Intake).readAll chunks))
    {t : Session σ} (hs : Reachable kit chunks world s) (hsettled : s.Settled kit)
    (ht : Reachable kit chunks world t) (hsettled' : t.Settled kit) :
    s.world = t.world ∧ s.executor.plans = t.executor.plans ∧
      ∀ f, s.executor.activity = .halted f ↔ t.executor.activity = .halted f := by
  obtain ⟨a, ha⟩ := hs.tracks hend
  obtain ⟨b, hb⟩ := ht.tracks hend
  obtain ⟨hintake, outcome, heffect, hhalted⟩ := ha.effect_of_settled hsettled
  obtain ⟨hintake', outcome', heffect', hhalted'⟩ := hb.effect_of_settled hsettled'
  rw [heffect] at heffect'
  obtain ⟨houtcome, hscope⟩ := Prod.mk.inj heffect'
  have hworld : s.world = t.world := congrArg Scope.world hscope
  have hbindings : a.bindings = b.bindings := congrArg Scope.bindings hscope
  refine ⟨hworld, ?_, fun f => ?_⟩
  · rw [ha.plans, hb.plans]
    cases a
    cases b
    cases hintake
    cases hintake'
    cases hbindings
    rfl
  · rw [← hhalted, ← hhalted', houtcome]

end

end Session

/-- A call of a basic skill, with its arguments as the skill takes them. -/
structure Invocation where
  skill : BasicSkill
  arguments : List Value

/-- The same skills, with a log of the calls made so far. -/
def Toolkit.logged (kit : Toolkit σ) : Toolkit (σ × List Invocation) where
  low := kit.low
  high := kit.high
  short := kit.short
  perform skill arguments world :=
    let (r, world') := kit.perform skill arguments world.1
    (r, world', world.2 ++ [{ skill := skill, arguments := arguments }])

/-- **Executing a plan while it is being read has the same effects as executing it afterwards.**
Whatever the skills do, and in whatever order the reader and the executor take their moves, when
neither can move any more the calls made, what they did to the world, the plan as it has been read
with its variables, and the reason why the executor halted, if it did, are those of an executor that
has its turn after all has been read. -/
theorem streaming_matches_deferred (kit : Toolkit σ) (chunks : List Chunk) (world : σ)
    (hend : LeavesNoneOpen (({} : Intake).readAll chunks)) {s : Session (σ × List Invocation)}
    (hs : Session.Reachable kit.logged chunks (world, []) s) (hsettled : s.Settled kit.logged) :
    let deferred := (Executor.read {} chunks).2.1.turn kit.logged (world, [])
    s.world = deferred.2 ∧ s.executor.plans = deferred.1.plans ∧
      ∀ f, s.executor.activity = .halted f ↔ deferred.1.activity = .halted f := by
  intro deferred
  obtain ⟨t, r, hrested, hphase, hexecutor, hworld, -⟩ :=
    Session.rested_deferred kit.logged chunks (world, [])
  have hagree := Session.Settled.agree hend hs hsettled hrested.reachable
    (hrested.settled hend hphase)
  rwa [hexecutor, hworld] at hagree

/-- A skill that counts. -/
def counting : BasicSkill := { name := "count", abbreviation := "c" }

/-- A robot that counts how often it was asked to. -/
def counter : Toolkit Nat where
  low := .ofList [("count", .basic counting)]
  perform _ _ n := (.ok (.ofValue (.int (n + 1))), n + 1)

/-- A loop that is begun before all of it has been read, and a return before the end. -/
def countPlan : List Chunk :=
  [.text "2\x7bcount;", .text "\x7d->7;", .text "count;"]

/-- Reading this plan with a turn of the executor after each chunk makes the calls that executing it
afterwards makes. -/
theorem streaming_matches_deferred_count :
    LeavesNoneOpen (({} : Intake).readAll countPlan) ∧
      ∃ s, Session.Reachable counter.logged countPlan (0, []) s ∧ s.Settled counter.logged ∧
        s.executor = (Executor.stream counter.logged {} countPlan (0, [])).2.2.1 ∧
        s.world = ((Executor.read {} countPlan).2.1.turn counter.logged (0, [])).2 ∧
        s.executor.plans =
          ((Executor.read {} countPlan).2.1.turn counter.logged (0, [])).1.plans ∧
        ∀ f, s.executor.activity = .halted f ↔
          ((Executor.read {} countPlan).2.1.turn counter.logged (0, [])).1.activity =
            .halted f := by
  have hend : LeavesNoneOpen (({} : Intake).readAll countPlan) := Or.inr rfl
  obtain ⟨s, r, hrested, hphase, hexecutor, -⟩ :=
    Session.rested_streamed counter.logged countPlan (0, [])
  have hsettled := hrested.settled hend hphase
  exact ⟨hend, s, hrested.reachable, hsettled, hexecutor,
    streaming_matches_deferred counter countPlan 0 hend hrested.reachable hsettled⟩

end DronePilot.Plan
