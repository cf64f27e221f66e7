import DronePilot.Proofs.Effect
import DronePilot.Proofs.Growth

/-!
# Evaluating a block before all of it has been read

The executor starts a block at its opening brace and waits at the end of what has been read of its
body.  This file compares that with starting the block later, when more of it is there: a statement
and what it continues to do the same, if the waiting is made up for.

* `Body.exec_proceed_grown` — going through a body, waiting at its end and going on is going through
  the longer body.
* `Statement.Continues.exec_start`, `Statement.Continues.exec_carryOn` — so it is for the statements
  of a plan.
* `effect_andThen` — a list of statements has the same effect when its first one was begun early.
-/

namespace DronePilot.Plan

variable {σ : Type}

/-- Statements that did not stop have left one mark each, and none of them asked for a new plan. -/
theorem unstopped_of_exec_runAll (call : Call → Run σ Result) {statements : List Statement}
    {last : Result} {s s' : Scope σ} {p : Progress}
    (h : (runAll call statements [] last).exec s = (.ok p, s')) (hstop : p.stopped = false) :
    p.marks.length = statements.length ∧ (last.replan = false → p.result.replan = false) := by
  induction statements generalizing last s p with
  | nil =>
      rw [runAll_nil] at h
      cases h
      exact ⟨rfl, id⟩
  | cons t rest ih =>
      obtain ⟨r, m, s₁, -, ⟨-, -, -, rfl⟩ | ⟨hreturned, q, hrest, rfl⟩⟩ :=
        ok_of_exec_runAll_cons h
      · cases hstop
      · obtain ⟨hmarks, hreplan⟩ := ih hrest hstop
        exact ⟨congrArg (· + 1) hmarks,
          fun _ => hreplan (Bool.or_eq_false_iff.1 hreturned).1⟩

/-- Goes on with a stage that waits. -/
def Stage.resume (again : Nat → Result → Trail Mark → Run σ Stage) : Stage → Run σ Stage
  | .done r returned => pure (.done r returned)
  | .pending rounds last trail => again rounds last trail

/-- **Waiting at the end of a body changes nothing.**  Going through the longer body is going
through the shorter one and, if that did not stop, through the rest. -/
theorem Body.exec_proceed_grown (call : Call → Run σ Result) {body body' : Program}
    (hopen : body.finished = false) (hbegins : body.statements <+: body'.statements)
    {rounds : Nat} {last : Result} {trail : Trail Mark}
    (htrail : trail.inner.length ≤ body.statements.length) (s : Scope σ) :
    (body'.proceed call rounds last trail).exec s =
      (body.proceed call rounds last trail >>= Stage.resume (body'.proceed call)).exec s := by
  obtain ⟨more, hmore⟩ := hbegins
  have hdrop : body'.statements.drop trail.inner.length =
      body.statements.drop trail.inner.length ++ more := by
    rw [← hmore, List.drop_append_of_le_length htrail]
  simp only [Body.proceed, hdrop, runAll_append, bind_assoc]
  cases hfirst : (runAll call (body.statements.drop trail.inner.length) [] last).exec s with
  | mk outcome s₁ =>
      cases outcome with
      | error e => rw [Run.exec_bind_error hfirst, Run.exec_bind_error hfirst]
      | ok p =>
          rw [Run.exec_bind_ok hfirst, Run.exec_bind_ok hfirst]
          cases hstop : p.stopped with
          | true => simp [hstop, Stage.resume]
          | false =>
              have hmarks := (unstopped_of_exec_runAll call hfirst hstop).1
              have hrest :
                  body'.statements.drop (trail.inner.length + p.marks.length) = more := by
                rw [← hmore, hmarks, List.length_drop, Nat.add_sub_cancel' htrail, List.drop_left]
              simp [hopen, Stage.resume, Body.proceed, hrest]

/-- A finished body is not waited for. -/
theorem Body.exec_proceed_finished (call : Call → Run σ Result) {body : Program}
    (hfinished : body.finished = true) {rounds : Nat} {last : Result} {trail : Trail Mark}
    (again : Nat → Result → Trail Mark → Run σ Stage) (s : Scope σ) :
    (body.proceed call rounds last trail >>= Stage.resume again).exec s =
      (body.proceed call rounds last trail).exec s := by
  simp only [Body.proceed, bind_assoc]
  congr 1
  congr 1
  funext p
  cases p.stopped <;> simp [hfinished, Stage.resume]

/-- Goes on with a statement that was waited for. -/
def Statement.carryOn (call : Call → Run σ Result) :
    Statement → Nat → Result → Trail Mark → Run σ Stage
  | .block _ _ body, rounds, last, trail => body.proceed call rounds last trail
  | _, _, _, _ => throw .stall

/-- The marks of a trail belong to statements that have been read. -/
def Statement.Fits (s : Statement) (trail : Trail Mark) : Prop :=
  ∀ d head body, s = .block d head body → trail.inner.length ≤ body.statements.length

/-- **Going on early and then again is going on late.** -/
theorem Statement.Continues.exec_carryOn (call : Call → Run σ Result) {t t' : Statement}
    (h : t.Continues t') {rounds : Nat} {last : Result} {trail : Trail Mark}
    (hfits : t.Fits trail) (s : Scope σ) :
    (t'.carryOn call rounds last trail).exec s =
      (t.carryOn call rounds last trail >>= Stage.resume (t'.carryOn call)).exec s := by
  cases h with
  | same hclosed =>
      cases t with
      | block d head body =>
          have hfinished : body.finished = true := by simpa using hclosed
          exact (Body.exec_proceed_finished call hfinished _ s).symm
      | _ => rfl
  | grown hopen hbegins => exact Body.exec_proceed_grown call hopen hbegins (hfits _ _ _ rfl) s

/-- **Starting early and then going on is starting late.** -/
theorem Statement.Continues.exec_start (call : Call → Run σ Result) {t t' : Statement}
    (h : t.Continues t') (s : Scope σ) :
    (t'.start call).exec s = (t.start call >>= Stage.resume (t'.carryOn call)).exec s := by
  -- What both do before they come to the body is the same.
  have hblock : ∀ {d : Draft} {head : Head} {body body' : Program},
      (∀ rounds s, (body'.proceed call rounds .none .fresh).exec s =
        (body.proceed call rounds .none .fresh >>= Stage.resume (body'.proceed call)).exec s) →
      ((Statement.block d head body').start call).exec s =
        ((Statement.block d head body).start call >>=
          Stage.resume (body'.proceed call)).exec s := by
    intro d head body body' hproceed
    cases head with
    | conditional =>
        simp only [Statement.start, bind_assoc]
        rw [Run.exec_bind, Run.exec_bind]
        cases ((Condition.ofText d.text.toList).eval call).exec s with
        | mk outcome s₁ =>
            cases outcome with
            | error e => rfl
            | ok v =>
                cases v with
                | replan r => rfl
                | holds b =>
                    cases b with
                    | false => rfl
                    | true => exact hproceed 1 s₁
    | loop n =>
        simp only [Statement.start]
        cases n.toNat with
        | zero => rfl
        | succ k => exact hproceed (k + 1) s
  cases h with
  | same hclosed =>
      cases t with
      | block d head body =>
          have hfinished : body.finished = true := by simpa using hclosed
          exact hblock fun rounds s => (Body.exec_proceed_finished call hfinished _ s).symm
      | _ => simp [Statement.start, Stage.resume]
  | grown hopen hbegins =>
      exact hblock fun rounds s =>
        Body.exec_proceed_grown call hopen hbegins (Nat.zero_le _) s

/-- The statement is an open block, and all that has been read of its body has been evaluated. -/
def Statement.WaitsAt (t : Statement) (trail : Trail Mark) : Prop :=
  ∃ d head body, t = .block d head body ∧ body.finished = false ∧
    trail.inner.length = body.statements.length

/-- A body is waited for when it is not finished and all of it has been evaluated. -/
theorem Body.exec_proceed_pending (call : Call → Run σ Result) {body : Program}
    {rounds rounds' : Nat} {last last' : Result} {trail trail' : Trail Mark} {s s' : Scope σ}
    (htrail : trail.inner.length ≤ body.statements.length)
    (h : (body.proceed call rounds last trail).exec s = (.ok (.pending rounds' last' trail'), s')) :
    body.finished = false ∧ trail'.inner.length = body.statements.length := by
  unfold Body.proceed at h
  cases hfirst : (runAll call (body.statements.drop trail.inner.length) [] last).exec s with
  | mk outcome s₁ =>
      cases outcome with
      | error e =>
          rw [Run.exec_bind_error hfirst] at h
          cases h
      | ok p =>
          rw [Run.exec_bind_ok hfirst] at h
          cases hstop : p.stopped with
          | true =>
              simp only [hstop, if_true, Run.exec_pure] at h
              cases h
          | false =>
              have hmarks := (unstopped_of_exec_runAll call hfirst hstop).1
              cases hfinished : body.finished with
              | false =>
                  simp only [hstop, hfinished, Bool.false_eq_true, Bool.not_false, if_false,
                    if_true, Run.exec_pure] at h
                  cases h
                  refine ⟨rfl, ?_⟩
                  rw [List.length_append, hmarks, List.length_drop, Nat.add_sub_cancel' htrail]
              | true =>
                  simp only [hstop, hfinished, Bool.false_eq_true, Bool.not_true, if_false] at h
                  rw [Run.exec_bind] at h
                  split at h <;> cases h

/-- A statement that is carried on and waits again waits at the point where it stopped. -/
theorem Statement.Fits.waitsAt {call : Call → Run σ Result} {t : Statement}
    {rounds rounds' : Nat} {last last' : Result} {trail trail' : Trail Mark} {s s' : Scope σ}
    (hfits : t.Fits trail)
    (h : (t.carryOn call rounds last trail).exec s = (.ok (.pending rounds' last' trail'), s')) :
    t.WaitsAt trail' := by
  cases t with
  | block d head body =>
      obtain ⟨hopen, hlength⟩ := Body.exec_proceed_pending call (hfits d head body rfl) h
      exact ⟨d, head, body, rfl, hopen, hlength⟩
  | _ => cases h

/-- So does one that was started. -/
theorem Statement.waitsAt_of_start {call : Call → Run σ Result} {t : Statement} {rounds : Nat}
    {last : Result} {trail : Trail Mark} {s s' : Scope σ}
    (h : (t.start call).exec s = (.ok (.pending rounds last trail), s')) : t.WaitsAt trail := by
  cases t with
  | block d head body =>
      have hfresh : (Statement.block d head body).Fits .fresh := fun _ _ _ _ => Nat.zero_le _
      cases head with
      | conditional =>
          simp only [Statement.start] at h
          rw [Run.exec_bind] at h
          split at h
          · split at h
            · cases h
            · cases h
            · exact hfresh.waitsAt h
          · cases h
      | loop n =>
          simp only [Statement.start] at h
          split at h
          · cases h
          · exact hfresh.waitsAt h
  | _ =>
      simp only [Statement.start] at h
      rw [Run.exec_bind] at h
      split at h <;> cases h

/-- The trail of a statement that waits fits it. -/
theorem Statement.WaitsAt.fits {t : Statement} {trail : Trail Mark} (h : t.WaitsAt trail) :
    t.Fits trail := by
  obtain ⟨d, head, body, rfl, -, hlength⟩ := h
  intro d' head' body' heq
  cases heq
  exact Nat.le_of_eq hlength

/-- Only an open block waits. -/
theorem Statement.WaitsAt.isOpenBlock {t : Statement} {trail : Trail Mark} (h : t.WaitsAt trail) :
    t.isOpenBlock = true := by
  obtain ⟨d, head, body, rfl, hopen, -⟩ := h
  simp [hopen]

/-- Nothing happens while a block is waited for. -/
theorem Statement.WaitsAt.exec_carryOn {t : Statement} {trail : Trail Mark} (h : t.WaitsAt trail)
    (call : Call → Run σ Result) (rounds : Nat) (last : Result) (s : Scope σ) :
    (t.carryOn call rounds last trail).exec s = (.ok (.pending rounds last trail), s) := by
  obtain ⟨d, head, body, rfl, hopen, hlength⟩ := h
  simp [Statement.carryOn, Body.proceed, hlength, runAll_nil, hopen]

/-- A trail still fits when the statement has been read further. -/
theorem Statement.Fits.continues {t t' : Statement} {trail : Trail Mark} (hfits : t.Fits trail)
    (h : t.Continues t') : t'.Fits trail := by
  cases h with
  | same _ => exact hfits
  | grown _ hbegins =>
      rintro d head body' heq
      cases heq
      exact Nat.le_trans (hfits _ _ _ rfl) hbegins.length_le

/-- What follows the stage of a statement: nothing if it returned or is waited for, and `rest` if it
is done. -/
def Stage.andThen (rest : Run σ (Option Result)) : Stage → Run σ (Option Result)
  | .done r true => pure (some r)
  | .done _ false => rest
  | .pending .. => pure none

/-- Evaluates statements in order, as an executor does that has all of them in its queue: until one
returns, or has to be waited for. -/
def inOrder (call : Call → Run σ Result) : List Statement → Run σ (Option Result)
  | [] => pure none
  | s :: rest => do (← s.start call).andThen (inOrder call rest)

section

variable {call : Call → Run σ Result} (hcall : ∀ c, (call c).IgnoresFlag)

include hcall

/-- Proceeding in a body ignores the flag. -/
theorem Body.proceed_ignoresFlag (body : Program) (rounds : Nat) (last : Result)
    (trail : Trail Mark) : (body.proceed call rounds last trail).IgnoresFlag := by
  refine (runAll_ignoresFlag hcall _ _ _).bind fun p => ?_
  cases p.stopped with
  | true => exact .pure _
  | false =>
      cases body.finished with
      | false => exact .pure _
      | true =>
          exact (repeatBody_ignoresFlag (Body.run_ignoresFlag hcall body) _ _ _).bind
            fun x => .pure _

/-- So does carrying on with a statement. -/
theorem Statement.carryOn_ignoresFlag (t : Statement) (rounds : Nat) (last : Result)
    (trail : Trail Mark) : (t.carryOn call rounds last trail).IgnoresFlag := by
  cases t with
  | block d head body => exact body.proceed_ignoresFlag hcall rounds last trail
  | _ => exact .throw _

/-- So does starting one. -/
theorem Statement.start_ignoresFlag (t : Statement) : (t.start call).IgnoresFlag := by
  cases t with
  | block d head body =>
      cases head with
      | conditional =>
          refine (Condition.eval_ignoresFlag hcall _).bind fun v => ?_
          cases v with
          | replan r => exact .pure _
          | holds b =>
              cases b with
              | false => exact .pure _
              | true => exact body.proceed_ignoresFlag hcall _ _ _
      | loop n =>
          simp only [Statement.start]
          split
          · exact .pure _
          · exact body.proceed_ignoresFlag hcall _ _ _
  | _ => exact (Statement.run_ignoresFlag hcall _ _).bind fun x => .pure _

omit hcall in
/-- So does what follows a stage, if it does on its own. -/
theorem Stage.andThen_ignoresFlag {rest : Run σ (Option Result)} (hrest : rest.IgnoresFlag)
    (stage : Stage) : (stage.andThen rest).IgnoresFlag := by
  cases stage with
  | done r returned =>
      cases returned with
      | true => exact .pure _
      | false => exact hrest
  | pending rounds last trail => exact .pure _

/-- So do statements one after the other. -/
theorem inOrder_ignoresFlag (statements : List Statement) :
    (inOrder call statements).IgnoresFlag := by
  induction statements with
  | nil => exact .pure _
  | cons t rest ih => exact (t.start_ignoresFlag hcall).bind (Stage.andThen_ignoresFlag ih)

/-- **The effect of a statement and the rest, when the statement was begun early.**  Here `late`
evaluates the statement as it stands in the end, and `early` as it stood when it was begun. -/
theorem effect_andThen {t : Statement} {early late : Run σ Stage} {rest : Run σ (Option Result)}
    (hrest : rest.IgnoresFlag) {s s' : Scope σ}
    (hlate : late.exec s = (early >>= Stage.resume (t.carryOn call)).exec s)
    {outcome : Except Halt Stage} (hearly : early.exec s = (outcome, s')) :
    (late >>= Stage.andThen rest).effect s =
      match outcome with
      | .error h => (.error h, s'.lowered)
      | .ok (.done r true) => (.ok (some r), s'.lowered)
      | .ok (.done _ false) => rest.effect s'.lowered
      | .ok (.pending rounds last trail) =>
        (t.carryOn call rounds last trail >>= Stage.andThen rest).effect s'.lowered := by
  have hbind : (late >>= Stage.andThen rest).effect s =
      (early >>= fun stage =>
        stage.resume (t.carryOn call) >>= Stage.andThen rest).effect s := by
    rw [← bind_assoc]
    simp only [Run.effect]
    rw [Run.exec_bind, Run.exec_bind, hlate]
  have hignores (stage : Stage) :
      (stage.resume (t.carryOn call) >>= Stage.andThen rest).IgnoresFlag := by
    refine Run.IgnoresFlag.bind ?_ (Stage.andThen_ignoresFlag hrest)
    cases stage with
    | done r returned => exact .pure _
    | pending rounds last trail => exact t.carryOn_ignoresFlag hcall rounds last trail
  rw [hbind, Run.effect_bind _ hignores, Run.effect_of_exec hearly]
  cases outcome with
  | error h => rfl
  | ok stage =>
      cases stage with
      | done r returned => cases returned <;> simp [Stage.resume, Stage.andThen]
      | pending rounds last trail => rfl

end

end DronePilot.Plan
