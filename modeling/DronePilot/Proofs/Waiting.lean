import DronePilot.Proofs.Bookkeeping
import DronePilot.Proofs.Conduct
import DronePilot.Proofs.Heeding

/-!
# Evaluation does not wait

The evaluator waits where a statement is not complete and where a body is not finished.  Neither is
ever met in a plan that was read and whose text is known to be complete: all that is listed is
whole, at every level, because every level counts its braces rightly.  Only a skill can wait.

`read_plan_never_waits` puts the two together: the books of the reader, and what follows from them
for every evaluation.
-/

namespace DronePilot.Plan

variable {σ : Type}

/-- Evaluations add to the record of the calls, and wait only where a skill did. -/
def Toolkit.waitingConduct (kit : Toolkit σ) : Conduct kit.recorded :=
  Conduct.ofWorld kit.recorded (fun w w' => w.2 <+: w'.2)
    (fun w h => h = .stall → ∃ reply ∈ w.2, reply.answer = .error .stall)
    (fun w => List.prefix_refl w.2)
    (fun huv hvw => huv.trans hvw)
    (fun _ _ h => by cases h)
    (by
      intro skill arguments w
      rw [Toolkit.recorded_perform]
      refine ⟨List.prefix_append _ _, ?_⟩
      intro h hanswer hstall
      subst hstall
      exact ⟨_, List.mem_append_right _ List.mem_cons_self, hanswer⟩)

/-- A complete statement is executable, and closed if it is a block. -/
theorem Statement.executable_of_isComplete {s : Statement} (h : s.isComplete = true) :
    s.isExecutable = true ∧ ∀ d head body, s = .block d head body → body.finished = true := by
  cases s with
  | action d =>
      refine ⟨rfl, ?_⟩
      intro d' head body hblock
      cases hblock
  | block d head body =>
      refine ⟨rfl, ?_⟩
      intro d' head' body' hblock
      cases hblock
      exact h
  | code d => cases h
  | condition d => cases h
  | count d => cases h

/-- The block under way in a sound plan is open. -/
theorem Body.Sound.open_of_current {p : Program} (h : p.Sound) {d : Draft} {head : Head}
    {body : Program} (hcurrent : p.current = .block d head body) : body.finished = false := by
  have hunder := h.under_way
  rw [hcurrent] at hunder
  exact hunder

/-- **Braces are counted rightly, and evaluation never waits.**  Take any chunks, in any number of
readings.  At every level of the plan, what is listed is executable and closed; a block under way is
open, and around it at least one more brace is open than in it; and a closing brace that finishes
the level finds no block under way and leaves none.  The plan evaluated as complete, with any
skills, any variables and any marks of former evaluations, waits only if a skill that it called
did. -/
theorem read_plan_never_waits (kit : Toolkit σ) (chunks : List Chunk) (trail : Trail Mark)
    (world : σ) (bindings : Variables) :
    let p := (({} : Intake).takeEach chunks).1.program
    let after := (p.finish.run kit.recorded.call trail).exec
      { world := (world, []), bindings := bindings }
    (∀ q, p.HasLevel q →
      (∀ s ∈ q.statements, s.isExecutable = true ∧
        ∀ d head body, s = .block d head body → body.finished = true) ∧
      (∀ d head body, q.current = .block d head body →
        body.finished = false ∧ body.depth + 1 ≤ q.depth) ∧
      (∀ c s, q.step c = .ok s → s.closed = true →
        (∀ d head body, q.current ≠ .block d head body) ∧
          ∀ d head body, s.next.current ≠ .block d head body)) ∧
    (after.1 = .error .stall → ∃ reply ∈ after.2.world.2, reply.answer = .error .stall) := by
  intro p after
  have hkept : p.WellKept := (Intake.reaches_takeEach {} chunks).wellKept
  refine ⟨?_, ?_⟩
  · intro q hlevel
    have hbalanced := hkept.balanced q hlevel
    refine ⟨?_, ?_, ?_⟩
    · intro s hs
      exact Statement.executable_of_isComplete (hbalanced.listed s hs)
    · intro d head body hcurrent
      exact ⟨hbalanced.open_of_current hcurrent, hbalanced.deeper d head body hcurrent⟩
    · intro c s hstep hclosed
      exact hbalanced.outside_of_closed hstep hclosed
  · have hholds : kit.waitingConduct.Holds { world := (world, []), bindings := bindings } :=
      fun _ _ _ => trivial
    have hkeeps := hkept.keeps_run kit.waitingConduct.callsKeep trail hholds
    intro hstall
    exact hkeeps.halts hstall rfl

end DronePilot.Plan
