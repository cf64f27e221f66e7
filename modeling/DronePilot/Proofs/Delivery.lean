import DronePilot.Proofs.Streaming

/-!
# Delivering the result of a plan

The executor delivers a result when a statement returns, or when as many statements are done as the
plan has.  That number is set when the plan is concluded, and statements that were executed before
are counted off from nothing; so a session that was quick to execute never counts down to its end.
-/

namespace DronePilot.Plan

variable {σ : Type}

/-- Evaluates the statements of a plan in order, until one of them returns. -/
def runInOrder (call : Call → Run σ Result) : List Statement → Run σ (Option Result)
  | [] => pure none
  | s :: rest => do
    let (r, m) ← s.run call .fresh
    if m.returned then pure (some r) else runInOrder call rest

/-- Going through a finished body for the first time is evaluating it as often as it is to be. -/
theorem Body.exec_proceed_fresh (call : Call → Run σ Result) {body : Program}
    (hfinished : body.finished = true) (n : Nat) (s : Scope σ) :
    (body.proceed call (n + 1) .none .fresh).exec s =
      (do
        let (r, _, stopped) ← repeatBody (body.run call) (n + 1) .none .fresh
        pure (.done r stopped) : Run σ Stage).exec s := by
  simp only [Body.proceed, repeatBody, Body.run, Run.record_none, pure_bind, bind_assoc]
  rw [show body.statements.drop Trail.fresh.inner.length = body.statements from rfl,
    show Trail.fresh.inner = [] from rfl]
  cases hrun : (runAll call body.statements [] .none).exec s with
  | mk outcome s₁ =>
      cases outcome with
      | error f => rw [Run.exec_bind_error hrun, Run.exec_bind_error hrun]
      | ok p =>
          rw [Run.exec_bind_ok hrun, Run.exec_bind_ok hrun]
          cases hstop : p.stopped with
          | true => simp [hstop, Progress.conclude]
          | false =>
              have hreplan := (unstopped_of_exec_runAll call hrun hstop).2 rfl
              simp [hstop, hfinished, Progress.conclude, hreplan, Trail.fresh]

/-- Starting a complete statement is evaluating it. -/
theorem Statement.exec_start_of_isComplete (call : Call → Run σ Result) {t : Statement}
    (h : t.isComplete = true) (s : Scope σ) :
    (t.start call).exec s =
      (do
        let (r, m) ← t.run call .fresh
        pure (.done r m.returned) : Run σ Stage).exec s := by
  cases t with
  | block d head body =>
      have hfinished : body.finished = true := h
      cases head with
      | conditional =>
          rw [Statement.run_conditional]
          simp only [Statement.start, bind_assoc]
          cases hcondition : ((Condition.ofText d.text.toList).eval call).exec s with
          | mk outcome s₁ =>
              cases outcome with
              | error f => rw [Run.exec_bind_error hcondition, Run.exec_bind_error hcondition]
              | ok v =>
                  rw [Run.exec_bind_ok hcondition, Run.exec_bind_ok hcondition]
                  cases v with
                  | replan r => rfl
                  | holds b =>
                      cases b with
                      | false => rfl
                      | true =>
                          simp only [Body.exec_proceed_fresh call hfinished, repeatBody,
                            Run.record_none, pure_bind, bind_assoc]
                          congr 1
                          congr 1
                          funext x
                          obtain ⟨r, t⟩ := x
                          cases hstop : r.replan || t.returned <;>
                            simp [hstop, Mark.returned, Mark.fresh]
      | loop n =>
          rw [Statement.run_loop]
          simp only [Statement.start, bind_assoc]
          cases n.toNat with
          | zero => rfl
          | succ k =>
              simp only [Nat.add_one_ne_zero, if_false, Body.exec_proceed_fresh call hfinished]
              rfl
  | action d => rfl
  | _ => cases h

/-- The executor does with complete statements what evaluating them in order does. -/
theorem exec_inOrder (call : Call → Run σ Result) {statements : List Statement}
    (h : ∀ t ∈ statements, t.isComplete = true) (s : Scope σ) :
    (inOrder call statements).exec s = (runInOrder call statements).exec s := by
  induction statements generalizing s with
  | nil => rfl
  | cons t rest ih =>
      obtain ⟨ht, hrest⟩ := List.forall_mem_cons.1 h
      simp only [inOrder, runInOrder]
      rw [Run.exec_bind, Run.exec_bind, Statement.exec_start_of_isComplete call ht, Run.exec_bind]
      cases hrun : (t.run call .fresh).exec s with
      | mk outcome s₁ =>
          cases outcome with
          | error f => rfl
          | ok x =>
              obtain ⟨r, m⟩ := x
              cases hreturned : m.returned with
              | true => simp [hreturned, Stage.andThen]
              | false => simpa [hreturned, Stage.andThen] using ih hrest s₁

/-- The statements that can be started of a plan without an open block. -/
theorem Body.startable_of_closed {p : Program} (h : p.current.isOpenBlock = false) :
    p.startable = p.statements := by
  have hissued : p.issued = p.statements.length := by simp [Body.issued, h]
  apply List.ext_getElem
  · simp [Body.startable, hissued]
  · intro i hi hi'
    simp [Body.startable, Body.statementAt_lt hi']

/-- What the executor does with a plan without an open block, in order. -/
theorem effect_inOrder_startable (call : Call → Run σ Result) {p : Program} (hp : p.Sound)
    (hclosed : p.current.isOpenBlock = false) {s s' : Scope σ}
    {outcome : Except Halt (Option Result)}
    (h : (runInOrder call p.statements).exec s = (outcome, s')) :
    (inOrder call p.startable).effect s = (outcome, s'.lowered) := by
  rw [Body.startable_of_closed hclosed]
  exact Run.effect_of_exec ((exec_inOrder call hp.listed s).trans h)

section

variable {kit : Toolkit σ} {final : Intake × Reading} {world : σ} {s : Session σ} {a : Assignment}

/-- A settled session of a plan without an open block does not wait. -/
theorem Session.Tracks.not_waiting (h : s.Tracks kit final world a) (hsettled : s.Settled kit)
    (hclosed : final.1.program.current.isOpenBlock = false) (p : Pending) :
    s.executor.activity ≠ .waiting p := by
  intro hactivity
  obtain ⟨⟨k, hk, hopen⟩, -⟩ := h.effect_of_waiting hsettled hactivity
  obtain ⟨r, hphase⟩ := h.phase_of_settled hsettled.read
  have hsound : final.1.Sound := by
    rw [h.intake_of_done hphase]
    exact h.sound
  have hlisted : k < final.1.program.statements.length := by
    simpa [Body.issued, hclosed] using hk
  have hcomplete := hsound.program.listed _ (List.get_mem _ ⟨k, hlisted⟩)
  rw [Body.statementAt_lt hlisted, Statement.isOpenBlock_of_isComplete hcomplete] at hopen
  cases hopen

/-- An executor that is still idle in the end did some statements too early for its count. -/
theorem Session.Tracks.early_of_idle (h : s.Tracks kit final world a) (hsettled : s.Settled kit)
    (hread : ∀ f, final.2 ≠ .failed f) (hclosed : final.1.program.current.isOpenBlock = false)
    (hsome : final.1.program.statements ≠ []) (hactivity : s.executor.activity = .idle) :
    s.early ≠ 0 := by
  obtain ⟨r, hphase⟩ := h.phase_of_settled hsettled.read
  have hover : s.executor.isOver = false := by simp [Executor.isOver, hactivity]
  have hconcluded : s.phase.isConcluded = true := by
    rw [hphase]
    cases r with
    | failed f => exact absurd (by rw [h.intake_of_done hphase]) (hread f)
    | _ => rfl
  have hall := (h.effect_of_idle hsettled hactivity).1
  have hissued : final.1.program.issued = final.1.program.statements.length := by
    simp [Body.issued, hclosed]
  have hexpected := h.expected hover
  have hunfinished := h.unfinished hover hconcluded hsome
  rw [Session.due_of_concluded hconcluded] at hexpected
  omega

/-- How a settled session ends that does not halt: the executor has delivered what was returned, or
the last result by its count, or it is idle. -/
theorem Session.Tracks.delivery (h : s.Tracks kit final world a) (hsettled : s.Settled kit)
    (hread : ∀ f, final.2 ≠ .failed f) (hclosed : final.1.program.current.isOpenBlock = false)
    (hsome : final.1.program.statements ≠ []) {returned : Option Result} {scope : Scope σ}
    (heffect : (inOrder kit.call final.1.program.startable).effect { world := world } =
      (.ok returned, scope)) :
    (∃ r, s.executor.activity = .ended r ∧ s.delivered = [r] ∧
      (returned = some r ∨ (returned = none ∧ s.early = 0))) ∨
    (s.executor.activity = .idle ∧ s.delivered = [] ∧ returned = none ∧ s.early ≠ 0) := by
  have hcourse := h.course
  rw [heffect] at hcourse
  have hdelivered := h.delivered
  unfold Executor.results at hdelivered
  cases hactivity : s.executor.activity with
  | waiting p => exact absurd hactivity (h.not_waiting hsettled hclosed p)
  | idle =>
      rw [hactivity] at hdelivered
      have hnone := (h.effect_of_idle hsettled hactivity).2
      rw [heffect] at hnone
      cases hnone
      exact Or.inr ⟨rfl, hdelivered, rfl,
        h.early_of_idle hsettled hread hclosed hsome hactivity⟩
  | ended r =>
      rw [hactivity] at hdelivered hcourse
      refine Or.inl ⟨r, rfl, hdelivered, ?_⟩
      cases hcourse with
      | returned htarget =>
          cases htarget
          exact Or.inl rfl
      | counted htarget hcount =>
          cases htarget
          exact Or.inr ⟨rfl, hcount.2⟩
  | halted f =>
      rw [hactivity] at hcourse
      cases hcourse with
      | halted htarget => cases htarget

end

/-- **When the result of a plan is delivered.**  Take a plan that is read without a failure, with at
least one statement and no block left open, whose statements do not halt.  However the reader and
the executor take their moves, when neither can move any more the executor has ended and delivered
exactly one result if a statement returned, or if no statement was executed before the plan was
concluded; otherwise it is idle and has delivered nothing. -/
theorem delivers_once_iff (kit : Toolkit σ) (chunks : List Chunk) (world : σ)
    (hread : ∀ f, (({} : Intake).readAll chunks).2 ≠ .failed f)
    (hclosed : (({} : Intake).readAll chunks).1.program.current.isOpenBlock = false)
    (hsome : (({} : Intake).readAll chunks).1.program.statements ≠ [])
    {returned : Option Result} {scope : Scope σ}
    (hrun : (runInOrder kit.call (({} : Intake).readAll chunks).1.program.statements).exec
      { world := world } = (.ok returned, scope))
    {s : Session σ} (hs : Session.Reachable kit chunks world s) (hsettled : s.Settled kit) :
    (((∃ r, s.executor.activity = .ended r) ∧ s.delivered.length = 1) ↔
      (returned.isSome = true ∨ s.early = 0)) ∧
    (∀ r, returned = some r → s.delivered = [r]) ∧
    (returned = none → s.early ≠ 0 → s.executor.activity = .idle ∧ s.delivered = []) := by
  obtain ⟨a, ha⟩ := hs.tracks (Or.inr hclosed)
  have hsound : (({} : Intake).readAll chunks).1.Sound := (Intake.sound_fresh.takeAll chunks).1
  have heffect := effect_inOrder_startable kit.call hsound.program hclosed hrun
  rcases ha.delivery hsettled hread hclosed hsome heffect with
    ⟨r, hactivity, hdelivered, hreturned⟩ | ⟨hactivity, hdelivered, rfl, hearly⟩
  · have hone : (∃ r, s.executor.activity = .ended r) ∧ s.delivered.length = 1 :=
      ⟨⟨r, hactivity⟩, by rw [hdelivered]; rfl⟩
    rcases hreturned with rfl | ⟨rfl, hearly⟩
    · refine ⟨by simp [hone], ?_, by simp⟩
      rintro r' ⟨⟩
      exact hdelivered
    · exact ⟨by simp [hone, hearly], by simp, fun _ hne => absurd hearly hne⟩
  · exact ⟨by simp [hactivity, hearly], by simp, fun _ _ => ⟨hactivity, hdelivered⟩⟩

/-- A plan that counts twice, in two chunks. -/
def countTwice : List Chunk := [.text "count;", .text "count;"]

theorem ofText_count :
    Expr.ofText "count".toList = .call { name := "count", arguments := [] } := by
  rw [Expr.ofText]
  rfl

theorem exec_run_count (n : Nat) :
    ((Statement.action { text := "count", named := true }).run counter.call .fresh).exec
      { world := n } = (.ok (.ofValue (.int (n + 1)), .fresh), { world := n + 1 }) := by
  rw [Statement.exec_run_action rfl ofText_count]
  rfl

/-- Its two statements do not halt, and do not return. -/
theorem exec_runInOrder_countTwice :
    (runInOrder counter.call (({} : Intake).readAll countTwice).1.program.statements).exec
      { world := 0 } = (.ok none, { world := 2 }) := by
  have hstatements : (({} : Intake).readAll countTwice).1.program.statements =
      [.action { text := "count", named := true },
       .action { text := "count", named := true }] := rfl
  rw [hstatements, runInOrder, Run.exec_bind_ok (exec_run_count 0)]
  simp only [Mark.returned, Mark.fresh, Bool.false_eq_true, if_false]
  rw [runInOrder, Run.exec_bind_ok (exec_run_count 1)]
  rfl

/-- The plan after its first chunk. -/
def countOnce : Assignment :=
  { intake :=
      { program :=
          { statements := [.action { text := "count", named := true }]
            current := .fresh
            depth := 0
            finished := false }
        ready := [0] } }

/-- A session of it that executes one statement between the chunks. -/
theorem rested_countTwice :
    ∃ s, Session.Rested counter countTwice 0 s ∧ s.phase = .done .more ∧ s.early = 1 := by
  have hstart : Session.Reachable counter countTwice 0 (Session.start countTwice 0) := .start
  have hchunk : Session.Reachable counter countTwice 0
      { phase := .reading [] [.text "count;"]
        executor := { plans := #[countOnce], queue := [{ plan := 0, position := 0 }] }
        world := 0 } := hstart.readChunk rfl
  have hcount : ((Statement.action { text := "count", named := true }).start counter.call).exec
      { world := 0, bindings := countOnce.bindings } =
        (.ok (.done (.ofValue (.int 1)) false), { world := 1 }) :=
    Run.exec_bind_ok (exec_run_count 0) _
  have hserve : Session.Reachable counter countTwice 0
      { phase := .reading [] [.text "count;"]
        executor :=
          { plans := #[countOnce]
            history := [{ plan := 0, position := 0 }]
            expected := -1 }
        world := 1 } := by
    have hserve := hchunk.serve
    have hstatement : Executor.statement
        { plans := #[countOnce], queue := [{ plan := 0, position := 0 }] }
        { plan := 0, position := 0 } = .action { text := "count", named := true } := rfl
    rw [Session.serve, Executor.serve_of_queue rfl rfl, hstatement,
      Executor.evaluate_eq rfl hcount] at hserve
    exact hserve
  have hread := (hserve.readAll rfl).read
  rw [Session.read_of_read rfl] at hread
  exact ⟨_, hread.turn, rfl, rfl⟩

/-- **A plan that is executed as it comes in may never deliver its result.**  The plan that counts
twice is read and executed to its end, with a move of the executor after the first chunk; nothing
halted, and yet the executor has not ended and no result has been delivered. -/
theorem countTwice_not_delivered :
    (({} : Intake).readAll countTwice).2 = .more ∧
      (({} : Intake).readAll countTwice).1.program.current.isOpenBlock = false ∧
      (({} : Intake).readAll countTwice).1.program.statements ≠ [] ∧
      (runInOrder counter.call (({} : Intake).readAll countTwice).1.program.statements).exec
        { world := 0 } = (.ok none, { world := 2 }) ∧
      ∃ s, Session.Reachable counter countTwice 0 s ∧ s.Settled counter ∧
        s.executor.activity = .idle ∧ s.delivered = [] := by
  have hclosed : (({} : Intake).readAll countTwice).1.program.current.isOpenBlock = false := rfl
  have hsome : (({} : Intake).readAll countTwice).1.program.statements ≠ [] := by rintro ⟨⟩
  have hsound : (({} : Intake).readAll countTwice).1.Sound :=
    (Intake.sound_fresh.takeAll countTwice).1
  obtain ⟨s, hrested, hphase, hearly⟩ := rested_countTwice
  obtain ⟨a, ha⟩ := hrested.reachable.tracks (Or.inr hclosed)
  have hsettled := hrested.settled (Or.inr hclosed) hphase
  refine ⟨rfl, hclosed, hsome, exec_runInOrder_countTwice, s, hrested.reachable, hsettled, ?_⟩
  rcases ha.delivery hsettled (by rintro f ⟨⟩) hclosed hsome
    (effect_inOrder_startable counter.call hsound.program hclosed exec_runInOrder_countTwice) with
    ⟨r, _, _, hreturned⟩ | ⟨hactivity, hdelivered, _, _⟩
  · rw [hearly] at hreturned
    simp at hreturned
  · exact ⟨hactivity, hdelivered⟩

/-- Executed after it has been read, the same plan delivers one result. -/
theorem delivers_once_iff_countTwice :
    (({} : Intake).readAll countTwice).2 = .more ∧
      ∃ s, Session.Reachable counter countTwice 0 s ∧ s.Settled counter ∧ s.early = 0 ∧
        (∃ r, s.executor.activity = .ended r) ∧ s.delivered.length = 1 := by
  have hclosed : (({} : Intake).readAll countTwice).1.program.current.isOpenBlock = false := rfl
  obtain ⟨s, r, hrested, hphase, -, -, hearly⟩ := Session.rested_deferred counter countTwice 0
  have hsettled := hrested.settled (Or.inr hclosed) hphase
  have hearly : s.early = 0 := hearly
  have hone := (delivers_once_iff counter countTwice 0 (by rintro f ⟨⟩) hclosed
    (by rintro ⟨⟩) exec_runInOrder_countTwice hrested.reachable hsettled).1.2 (Or.inr hearly)
  exact ⟨rfl, s, hrested.reachable, hsettled, hearly, hone⟩

end DronePilot.Plan
