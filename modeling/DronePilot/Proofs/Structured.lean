import DronePilot.Proofs.Meaning
import DronePilot.Proofs.Numeral
import DronePilot.Proofs.Streaming
import DronePilot.Proofs.Wholeness

/-!
# Evaluation keeps to the meaning of a plan

The evaluator marks statements and bodies that have returned, raises a flag while an action is
evaluated, and reads these marks again when a body is evaluated for the next time.  None of this
shows: evaluating a plan that was read from a text has the meaning of the plan, for every text.
Only the record does, which an evaluation cannot go on without.

The reason is an invariant on the marks.  A mark that is set stops every sequence and every loop
around it, so as long as a plan goes on no mark is set anywhere in it (`Mark.Clear`), at any depth
and in any round of a loop.

* `Agree.bind` — a computation with flags and one without agree if their parts do.
* `Expr.agree`, `Condition.agree` — the flag that an action finds in the end says whether a return
  was evaluated in it.
* `Statement.agree`, `runAll_agree` — statements that start without set marks agree with their
  meaning, and leave no set marks unless they stop.
* `Toolkit.agreeWithin` — so do calls, through all composed skills.
* `evaluation_eq_meaning` — so do plans; `long_square_not_compared` shows one whose record fails.
-/

namespace DronePilot.Plan

open DronePilot.Skill

variable {σ α β γ δ : Type}

/-- A scope without its flag. -/
def Scope.setting (s : Scope σ) : Setting σ := { world := s.world, bindings := s.bindings }

/-- `Agree rel` relates what a computation with flags and one without come to: both halt for the
same reason, or they give values of which `rel` holds, with the flag of the first one between
them; and the world and the variables are the same. -/
inductive Agree (rel : α → Bool → β → Prop) :
    Except Halt α × Scope σ → Except Halt β × Setting σ → Prop
  | value {a : α} {b : β} {s : Scope σ} (h : rel a s.returned b) :
      Agree rel (.ok a, s) (.ok b, s.setting)
  | halt (h : Halt) (s : Scope σ) : Agree rel (.error h, s) (.error h, s.setting)

/-- Computations agree if their first parts do, and what follows agrees wherever these end. -/
theorem Agree.bind {rel : α → Bool → β → Prop} {rel' : γ → Bool → δ → Prop} {x : Run σ α}
    {y : Act σ β} {f : α → Run σ γ} {g : β → Act σ δ} {s : Scope σ}
    (h : Agree rel (x.exec s) (y.exec s.setting))
    (hnext : ∀ a b (s' : Scope σ), rel a s'.returned b →
      Agree rel' ((f a).exec s') ((g b).exec s'.setting)) :
    Agree rel' ((x >>= f).exec s) ((y >>= g).exec s.setting) := by
  rw [Run.exec_bind, Act.exec_bind]
  generalize hx : x.exec s = outcome at h
  generalize hy : y.exec s.setting = outcome' at h
  cases h with
  | value hrel => exact hnext _ _ _ hrel
  | halt f s' => exact .halt f s'

/-- What agrees by one relation agrees by a weaker one. -/
theorem Agree.mono {rel rel' : α → Bool → β → Prop} {x : Except Halt α × Scope σ}
    {y : Except Halt β × Setting σ} (h : Agree rel x y)
    (hrel : ∀ a flag b, rel a flag b → rel' a flag b) : Agree rel' x y := by
  cases h with
  | value h => exact .value (hrel _ _ _ h)
  | halt f s => exact .halt f s

/-- A value is put into another form on the side without flags. -/
theorem Agree.map_right {rel : α → Bool → β → Prop} {rel' : α → Bool → γ → Prop} {x : Run σ α}
    {y : Act σ β} {g : β → γ} {s : Scope σ} (h : Agree rel (x.exec s) (y.exec s.setting))
    (hrel : ∀ a flag b, rel a flag b → rel' a flag (g b)) :
    Agree rel' (x.exec s) ((y >>= fun b => pure (g b)).exec s.setting) := by
  rw [Act.exec_bind]
  generalize x.exec s = outcome at h
  generalize y.exec s.setting = outcome' at h
  cases h with
  | value h => exact .value (hrel _ _ _ h)
  | halt f s' => exact .halt f s'

/-- The same value, with the flag as it was. -/
def Unchanged (flag : Bool) (a : α) (flag' : Bool) (b : α) : Prop :=
  a = b ∧ flag' = flag

/-- A pure computation that may fail is meant as it is. -/
theorem agree_lift (x : Except Fault α) (s : Scope σ) :
    Agree (Unchanged s.returned) ((Run.lift x).exec s) ((Act.lift x).exec s.setting) := by
  cases x with
  | ok a => exact .value ⟨rfl, rfl⟩
  | error f => exact .halt _ s

/-- An argument has the value that is meant. -/
theorem Argument.agree (a : Argument) (s : Scope σ) :
    Agree (Unchanged s.returned) ((a.resolve : Run σ Value).exec s)
      ((a.meaning : Act σ Value).exec s.setting) := by
  rw [Argument.exec_resolve]
  exact agree_lift (a.valueIn s.bindings) s

/-- So have all arguments of a call. -/
theorem agree_arguments (arguments : List Argument) (s : Scope σ) :
    Agree (Unchanged s.returned) ((arguments.mapM Argument.resolve : Run σ (List Value)).exec s)
      ((arguments.mapM Argument.meaning : Act σ (List Value)).exec s.setting) := by
  induction arguments generalizing s with
  | nil => exact .value ⟨rfl, rfl⟩
  | cons a rest ih =>
      rw [List.mapM_cons, List.mapM_cons]
      refine (a.agree s).bind ?_
      rintro v _ s₁ ⟨rfl, hflag⟩
      refine (ih s₁).bind ?_
      rintro vs _ s₂ ⟨rfl, hflag'⟩
      exact .value ⟨rfl, hflag'.trans hflag⟩

/-- A basic skill is run as it is meant to be. -/
theorem agree_perform (kit : Toolkit σ) (skill : BasicSkill) (arguments : List Value)
    (s : Scope σ) :
    Agree (Unchanged s.returned) ((Run.perform kit skill arguments).exec s)
      ((Act.perform kit skill arguments).exec s.setting) := by
  have hget : (get : Act σ (Setting σ)).exec s.setting = (.ok s.setting, s.setting) := rfl
  unfold Run.perform Act.perform
  rw [Run.exec_bind_ok (Run.exec_get s), Act.exec_bind, hget]
  simp only [show s.setting.world = s.world from rfl]
  generalize kit.perform skill arguments s.world = done
  cases done with
  | mk answer world =>
      cases answer with
      | ok r => exact .value ⟨rfl, rfl⟩
      | error h => exact .halt h { s with world := world }

/-- Computations that agree on their own agree when they are isolated. -/
theorem agree_alone {x : Except Halt α × Scope σ} {y : Except Halt α × Setting σ}
    (h : Agree (fun a _ b => a = b) x y) {s : Scope σ} :
    Agree (Unchanged s.returned) (x.1, { s with world := x.2.world })
      (y.1, { s.setting with world := y.2.world }) := by
  cases h with
  | value h => exact .value ⟨h, rfl⟩
  | halt f s' => exact .halt f { s with world := s'.world }

section

/-- `call` and `meant` agree on every call, and `call` leaves the flag alone. -/
def CallsAgree (call : Call → Run σ Result) (meant : Call → Act σ Result) : Prop :=
  ∀ c s, Agree (Unchanged s.returned) ((call c).exec s) ((meant c).exec s.setting)

variable {call : Call → Run σ Result} {meant : Call → Act σ Result}

/-- The result of an expression is the one meant, and the flag is raised if a return was
evaluated. -/
theorem Expr.agree (hcall : CallsAgree call meant) (e : Expr) (s : Scope σ) :
    Agree (fun r flag y => r = y.result ∧ flag = (s.returned || y.returns))
      ((e.eval call).exec s) ((e.meaning meant).exec s.setting) := by
  induction e generalizing s with
  | const v => exact .value ⟨rfl, (Bool.or_false _).symm⟩
  | give e ih =>
      rw [Expr.eval, Run.exec_bind_ok (Run.exec_setReturned true s)]
      refine (ih { s with returned := true }).bind ?_
      rintro r y s₁ ⟨rfl, hflag⟩
      exact .value ⟨rfl, by simpa using hflag⟩
  | assign name e ih =>
      refine (ih s).bind ?_
      rintro r y s₁ ⟨rfl, hflag⟩
      exact .value ⟨rfl, hflag⟩
  | ambiguous => exact .halt _ s
  | binary op left right ihleft ihright =>
      refine (ihleft s).bind ?_
      rintro a ya s₁ ⟨rfl, hflag₁⟩
      refine (ihright s₁).bind ?_
      rintro b yb s₂ ⟨rfl, hflag₂⟩
      refine (agree_lift _ s₂).bind ?_
      rintro v _ s₃ ⟨rfl, hflag₃⟩
      refine .value ⟨rfl, ?_⟩
      rw [hflag₃, hflag₂, hflag₁, Bool.or_assoc]
  | empty => exact .halt _ s
  | «variable» name =>
      refine ((Argument.variable name).agree s).bind ?_
      rintro v _ s₁ ⟨rfl, hflag⟩
      exact .value ⟨rfl, hflag.trans (Bool.or_false _).symm⟩
  | call c =>
      refine (hcall c s).map_right ?_
      rintro r flag _ ⟨rfl, hflag⟩
      exact ⟨rfl, hflag.trans (Bool.or_false _).symm⟩
  | literal t =>
      refine (agree_lift _ s).bind ?_
      rintro v _ s₁ ⟨rfl, hflag⟩
      exact .value ⟨rfl, hflag.trans (Bool.or_false _).symm⟩

/-- The same verdict; if it is a result, then one that asks for a new plan. -/
def Verdict.Same (v v' : Verdict) : Prop :=
  v = v' ∧ ∀ r, v = .replan r → r.replan = true

theorem Verdict.same_holds (b : Bool) : Verdict.Same (.holds b) (.holds b) :=
  ⟨rfl, by simp⟩

/-- A result that asks for a new plan is the same verdict on both sides. -/
theorem Verdict.same_replan {r : Result} (h : r.replan = true) :
    Verdict.Same (.replan r) (.replan r) :=
  ⟨rfl, by rintro _ ⟨⟩; exact h⟩

/-- The verdict on a condition is the one meant; nothing reads the flag after it. -/
theorem Condition.agree (hcall : CallsAgree call meant) (c : Condition) (s : Scope σ) :
    Agree (fun v _ v' => v.Same v') ((c.eval call).exec s)
      ((c.meaning recording meant).exec s.setting) := by
  induction c generalizing s with
  | both left right ihleft ihright =>
      refine (ihleft s).bind ?_
      rintro v _ s₁ ⟨rfl, hreplan⟩
      cases v with
      | replan r => exact .value (Verdict.same_replan (hreplan r rfl))
      | holds a =>
          refine (ihright s₁).bind ?_
          rintro v _ s₂ ⟨rfl, hreplan⟩
          cases v with
          | replan r => exact .value (Verdict.same_replan (hreplan r rfl))
          | holds b => exact .value (Verdict.same_holds _)
  | either left right ihleft ihright =>
      refine (ihleft s).bind ?_
      rintro v _ s₁ ⟨rfl, hreplan⟩
      cases v with
      | replan r => exact .value (Verdict.same_replan (hreplan r rfl))
      | holds a =>
          cases a with
          | true => exact .value (Verdict.same_holds _)
          | false => exact ihright s₁
  | compare left comparator right =>
      refine (left.agree hcall s).bind ?_
      rintro a ya s₁ ⟨rfl, -⟩
      cases hleft : ya.result.replan with
      | true => exact .value (Verdict.same_replan hleft)
      | false =>
          simp only [Bool.false_eq_true, if_false]
          refine (right.agree hcall s₁).bind ?_
          rintro b yb s₂ ⟨rfl, -⟩
          cases hright : yb.result.replan with
          | true => exact .value (Verdict.same_replan hright)
          | false =>
              simp only [Bool.false_eq_true, if_false]
              refine (agree_lift _ s₂).bind ?_
              rintro _ _ s₃ -
              refine (agree_lift _ s₃).bind ?_
              rintro holds _ s₄ ⟨rfl, -⟩
              exact .value (Verdict.same_holds _)
  | malformed => exact .halt _ s

end

/-- No mark is set, at any depth. -/
inductive Mark.Clear : Mark → Prop
  | mk {inner : List Mark} (h : ∀ m ∈ inner, Mark.Clear m) :
      Mark.Clear (.mk false { returned := false, inner := inner })

/-- No mark is set in a trail. -/
structure Trail.Clear (t : Trail Mark) : Prop where
  returned : t.returned = false
  inner : ∀ m ∈ t.inner, m.Clear

/-- A mark is clear if it is not set and its body is clear. -/
theorem Mark.clear_iff {m : Mark} : m.Clear ↔ m.returned = false ∧ m.body.Clear := by
  constructor
  · rintro ⟨h⟩
    exact ⟨rfl, rfl, h⟩
  · obtain ⟨returned, body⟩ := m
    rintro ⟨hreturned, hbody⟩
    obtain ⟨bodyReturned, inner⟩ := body
    obtain rfl : returned = false := hreturned
    obtain rfl : bodyReturned = false := hbody.returned
    exact .mk hbody.inner

theorem Trail.clear_fresh : Trail.fresh.Clear := ⟨rfl, by simp [Trail.fresh]⟩

/-- Nothing is set in a fresh mark. -/
theorem Mark.clear_fresh : Mark.fresh.Clear := Mark.clear_iff.2 ⟨rfl, Trail.clear_fresh⟩

/-- An evaluation came to the ending that is meant: it has the result, and it stopped or not.  If it
did not, then nothing asks for a new plan, and the marks that it left are `clear`. -/
structure Ending.Accounts (e : Ending) (r : Result) (stopped : Bool) (clear : Prop) : Prop where
  result : r = e.result
  stops : stopped = e.stops
  onward : stopped = false → r.replan = false ∧ clear

/-- Whatever asks for a new plan stops. -/
theorem Ending.Accounts.replan_or {e : Ending} {r : Result} {stopped : Bool} {clear : Prop}
    (h : e.Accounts r stopped clear) : (r.replan || stopped) = stopped := by
  cases stopped with
  | true => exact Bool.or_true _
  | false => simp [(h.onward rfl).1]

/-- A block ends as its body does, and is marked if that stopped. -/
theorem Ending.Accounts.block {e : Ending} {r : Result} {trail : Trail Mark} {stopped marked : Bool}
    (h : e.Accounts r stopped trail.Clear) (hmarked : marked = stopped) :
    e.Accounts r (r.replan || (Mark.mk marked trail).returned) (Mark.mk marked trail).Clear := by
  subst hmarked
  have hstopped : (r.replan || (Mark.mk marked trail).returned) = marked := h.replan_or
  refine ⟨h.result, hstopped.trans h.stops, fun hgoing => ?_⟩
  rw [hstopped] at hgoing
  obtain ⟨hreplan, hclear⟩ := h.onward hgoing
  exact ⟨hreplan, Mark.clear_iff.2 ⟨hgoing, hclear⟩⟩

/-- Evaluating the statement from clear marks has its meaning. -/
def Statement.Agrees (call : Call → Run σ Result) (meant : Call → Act σ Result)
    (t : Statement) : Prop :=
  ∀ (m : Mark) (s : Scope σ), m.Clear →
    Agree (fun x _ e => e.Accounts x.1 (x.1.replan || x.2.returned) x.2.Clear)
      ((t.run call m).exec s) ((t.meaning recording meant).exec s.setting)

section

variable {call : Call → Run σ Result} {meant : Call → Act σ Result}

/-- Statements in order have the meaning of their sequence. -/
theorem runAll_agree {statements : List Statement}
    (hstatements : ∀ t ∈ statements, t.Agrees call meant) {marks : List Mark}
    (hmarks : ∀ m ∈ marks, m.Clear) {last : Result} (hlast : last.replan = false) (s : Scope σ) :
    Agree (fun p _ e => e.Accounts p.result p.stopped (∀ m ∈ p.marks, m.Clear))
      ((runAll call statements marks last).exec s)
      ((sequence recording meant statements last).exec s.setting) := by
  induction statements generalizing marks last s with
  | nil =>
      rw [runAll_nil, sequence]
      exact .value ⟨rfl, rfl, fun _ => ⟨hlast, hmarks⟩⟩
  | cons t rest ih =>
      obtain ⟨ht, hrest⟩ := List.forall_mem_cons.1 hstatements
      have hhead : (marks.headD .fresh).Clear := by
        cases marks with
        | nil => exact Mark.clear_fresh
        | cons m _ => exact hmarks m List.mem_cons_self
      have htail : ∀ m ∈ marks.tail, m.Clear := fun m hm => hmarks m (List.mem_of_mem_tail hm)
      rw [runAll_cons, sequence]
      refine (ht _ s hhead).bind ?_
      rintro ⟨r, m⟩ e s₁ ⟨hresult, hstops, honward⟩
      obtain rfl : r = e.result := hresult
      cases hgoing : e.result.replan || m.returned with
      | true =>
          have hend : e.stops = true := hstops.symm.trans hgoing
          simp only [hgoing, hend, if_true]
          refine (agree_lift _ s₁).bind ?_
          rintro _ _ s₂ -
          exact .value ⟨rfl, hend.symm, fun h => by cases h⟩
      | false =>
          have hend : e.stops = false := hstops.symm.trans hgoing
          obtain ⟨hreplan, hclear⟩ := honward hgoing
          simp only [hgoing, hend, Bool.false_eq_true, if_false]
          rw [← bind_pure (sequence recording meant rest e.result)]
          refine (ih hrest htail hreplan s₁).bind ?_
          rintro p e' s₂ ⟨hresult', hstops', honward'⟩
          refine .value ⟨hresult', hstops', fun hstopped => ?_⟩
          obtain ⟨hreplan', hclear'⟩ := honward' hstopped
          exact ⟨hreplan', List.forall_mem_cons.2 ⟨hclear, hclear'⟩⟩

/-- A finished body has the meaning of its statements, and is marked if it stopped. -/
theorem Body.run_agree {body : Program} (hfinished : body.finished = true)
    (hstatements : ∀ t ∈ body.statements, t.Agrees call meant) {trail : Trail Mark}
    (htrail : trail.Clear) (s : Scope σ) :
    Agree (fun x _ e => e.Accounts x.1 x.2.returned x.2.Clear) ((body.run call trail).exec s)
      ((sequence recording meant body.statements .none).exec s.setting) := by
  rw [Body.run, ← bind_pure (sequence recording meant body.statements .none)]
  refine (runAll_agree hstatements htrail.inner rfl s).bind ?_
  rintro p e s₁ ⟨hresult, hstops, honward⟩
  cases hstopped : p.stopped with
  | true =>
      rw [hstopped] at hstops
      simp only [Progress.conclude, hstopped, if_true]
      exact .value ⟨hresult, hstops, fun h => by cases h⟩
  | false =>
      obtain ⟨hreplan, hclear⟩ := honward hstopped
      rw [hstopped] at hstops
      simp only [Progress.conclude, hstopped, hfinished, Bool.false_eq_true, if_false, if_true]
      exact .value ⟨hresult, htrail.returned.trans hstops,
        fun _ => ⟨hreplan, htrail.returned, hclear⟩⟩

/-- Rounds of something that has a meaning have the meaning of the rounds: the marks are clear again
before each of them. -/
theorem repeatBody_agree {once : Trail Mark → Run σ (Result × Trail Mark)}
    {meantOnce : Act σ Ending}
    (honce : ∀ (trail : Trail Mark) (s : Scope σ), trail.Clear →
      Agree (fun x _ e => e.Accounts x.1 x.2.returned x.2.Clear) ((once trail).exec s)
        (meantOnce.exec s.setting))
    (n : Nat) {last : Result} (hlast : last.replan = false) {trail : Trail Mark}
    (htrail : trail.Clear) (s : Scope σ) :
    Agree (fun x _ e => e.Accounts x.1 x.2.2 x.2.1.Clear) ((repeatBody once n last trail).exec s)
      ((rounds recording meantOnce n last).exec s.setting) := by
  induction n generalizing last trail s with
  | zero => exact .value ⟨rfl, rfl, fun _ => ⟨hlast, htrail⟩⟩
  | succ n ih =>
      rw [repeatBody, rounds]
      refine (agree_lift _ s).bind ?_
      rintro _ _ s₁ -
      refine (honce trail s₁ htrail).bind ?_
      rintro ⟨r, t⟩ e s₂ ⟨hresult, hstops, honward⟩
      obtain rfl : r = e.result := hresult
      have hstops : t.returned = e.stops := hstops
      cases hend : e.stops with
      | true =>
          rw [hend] at hstops
          simp only [hstops, Bool.or_true, if_true]
          exact .value ⟨rfl, hend.symm, fun h => by cases h⟩
      | false =>
          rw [hend] at hstops
          obtain ⟨hreplan, hclear⟩ := honward hstops
          have hreplan : e.result.replan = false := hreplan
          simp only [hstops, hreplan, Bool.or_self, Bool.false_eq_true, if_false]
          exact ih hreplan hclear s₂

/-- Evaluating an action has its meaning whatever its mark was, and keeps what the mark remembers of
a body. -/
theorem Statement.agree_action (hcall : CallsAgree call meant) (d : Draft) (m : Mark)
    (s : Scope σ) :
    Agree (fun x _ e => x.1 = e.result ∧ (x.1.replan || x.2.returned) = e.stops ∧ x.2.body = m.body)
      (((Statement.action d).run call m).exec s)
      (((Statement.action d).meaning recording meant).exec s.setting) := by
  cases hword : isBlockWord d.text with
  | true =>
      cases m with
      | mk returned trail =>
          simp only [Statement.run, Statement.meaning, hword, if_true]
          exact .halt _ s
  | false =>
      rw [Statement.run_action call hword, Run.exec_bind_ok (Run.exec_setReturned false s)]
      simp only [Statement.meaning, hword, Bool.false_eq_true, if_false]
      refine ((Expr.ofText d.text.toList).agree hcall { s with returned := false }).bind ?_
      rintro r y s₁ ⟨rfl, hflag⟩
      rw [Run.exec_bind_ok (Run.exec_get s₁)]
      have hflag : s₁.returned = y.returns := by simpa using hflag
      exact .value ⟨rfl, by simp [Mark.returned, hflag], rfl⟩

/-- **Evaluating a statement has its meaning**, if it starts from clear marks. -/
theorem Statement.Whole.agrees (hcall : CallsAgree call meant) {t : Statement} (h : t.Whole) :
    t.Agrees call meant := by
  intro m s hm
  induction h generalizing m s with
  | action d =>
      obtain ⟨hreturned, hbody⟩ := Mark.clear_iff.1 hm
      refine (Statement.agree_action hcall d m s).mono ?_
      rintro ⟨r, m'⟩ _ e ⟨hresult, hstops, hsame⟩
      refine ⟨hresult, hstops, fun hgoing => ?_⟩
      obtain ⟨hreplan, hlowered⟩ := Bool.or_eq_false_iff.1 hgoing
      exact ⟨hreplan, Mark.clear_iff.2 ⟨hlowered, hsame ▸ hbody⟩⟩
  | @block d head body hlisted hfinished ih =>
      obtain ⟨hreturned, hbody⟩ := Mark.clear_iff.1 hm
      have honce (trail : Trail Mark) (s : Scope σ) (htrail : trail.Clear) :=
        Body.run_agree hfinished (fun t ht m s => ih t ht m s) htrail s
      cases head with
      | conditional =>
          rw [Statement.run_conditional, Statement.meaning_conditional]
          refine ((Condition.ofText d.text.toList).agree hcall s).bind ?_
          rintro v _ s₁ ⟨rfl, hreplan⟩
          cases v with
          | replan r =>
              have hreplan := hreplan r rfl
              refine .value ⟨rfl, by simp [hreplan], fun hgoing => ?_⟩
              simp [hreplan] at hgoing
          | holds b =>
              cases b with
              | false => exact .value ⟨rfl, by simp [hreturned, Result.none], fun _ => ⟨rfl, hm⟩⟩
              | true =>
                  simp only
                  rw [← bind_pure (sequence recording meant body.statements .none)]
                  refine (honce m.body s₁ hbody).bind ?_
                  rintro ⟨r, trail⟩ e s₂ hbody
                  exact .value (hbody.block (by simpa [hreturned] using hbody.replan_or))
      | loop n =>
          rw [Statement.run_loop, Statement.meaning_loop, ← bind_pure (rounds _ _ _ _)]
          refine (repeatBody_agree honce n.toNat rfl hbody s).bind ?_
          rintro ⟨r, trail, stopped⟩ e s₁ hbody
          exact .value (hbody.block (by simp [hreturned]))

/-- A text that is evaluated as a plan of its own has the meaning of that plan. -/
theorem agree_runText (hcall : CallsAgree call meant) (text : List Char) (s : Scope σ) :
    Agree (Unchanged s.returned) ((runText call text).exec s)
      ((textMeaning recording meant text).exec s.setting) := by
  have hplan := (Body.wellRead_fresh.feed text).listed
  unfold runText textMeaning
  cases hread : Body.fresh.feed text with
  | mk p reading =>
      rw [hread] at hplan
      have hrun : Agree (fun r _ r' => r = r')
          ((do let x ← p.finish.run call .fresh; pure x.1).exec { world := s.world })
          ((do let e ← sequence recording meant p.statements .none; pure e.result).exec
            { world := s.world }) := by
        have hfinished : p.finish.finished = true := rfl
        refine (Body.run_agree hfinished (fun t ht => (hplan t ht).agrees hcall)
          Trail.clear_fresh { world := s.world }).bind ?_
        rintro ⟨r, t⟩ e s₁ ⟨hresult, -, -⟩
        exact .value hresult
      cases reading with
      | failed f => exact .halt _ s
      | _ =>
          simp only
          rw [Run.exec_isolated, Act.exec_isolated]
          exact agree_alone hrun

end

/-- Calls have their meaning, through composed skills nested to any depth. -/
theorem Toolkit.agreeWithin (kit : Toolkit σ) (depth : Nat) :
    CallsAgree (kit.callWithin depth) (kit.meaningWithin recording depth) := by
  induction depth with
  | zero => exact fun c s => .halt _ s
  | succ depth ih =>
      intro c s
      rw [Toolkit.callWithin, Toolkit.meaningWithin]
      refine (agree_arguments c.arguments s).bind ?_
      rintro arguments _ s₁ ⟨rfl, hflag⟩
      cases conversion? c.name with
      | some kind =>
          refine (agree_lift _ s₁).bind ?_
          rintro v _ s₂ ⟨rfl, hflag'⟩
          exact .value ⟨rfl, hflag'.trans hflag⟩
      | none =>
          cases kit.find? c.name with
          | none => exact .halt _ s₁
          | some skill =>
              cases skill with
              | basic skill =>
                  refine (agree_lift _ s₁).bind ?_
                  rintro _ _ s₂ ⟨-, hflag'⟩
                  refine (agree_lift _ s₂).bind ?_
                  rintro parsed _ s₃ ⟨rfl, hflag''⟩
                  rw [← hflag, ← hflag', ← hflag'']
                  exact agree_perform kit skill parsed s₃
              | composed skill =>
                  refine (agree_lift _ s₁).bind ?_
                  rintro text _ s₂ ⟨rfl, hflag'⟩
                  refine (agree_runText ih text s₂).bind ?_
                  rintro r _ s₃ ⟨rfl, hflag''⟩
                  exact .value ⟨rfl, hflag''.trans (hflag'.trans hflag)⟩
              | unread skill =>
                  refine (agree_lift _ s₁).bind ?_
                  rintro _ _ s₂ ⟨-, hflag'⟩
                  refine (agree_lift _ s₂).bind ?_
                  rintro text _ s₃ ⟨rfl, hflag''⟩
                  rw [← hflag, ← hflag', ← hflag'']
                  exact agree_lift _ s₃
              | misread skill =>
                  refine (agree_lift _ s₁).bind ?_
                  rintro read _ s₂ ⟨rfl, -⟩
                  refine (agree_perform kit skill read s₂).bind ?_
                  rintro r _ s₃ ⟨rfl, -⟩
                  refine (agree_lift _ s₃).bind ?_
                  rintro _ _ s₄ -
                  refine (agree_perform kit skill read s₄).bind ?_
                  rintro _ _ s₅ -
                  exact .halt _ s₅

/-- What can be seen of one evaluation of a plan: its result or the reason why it halted, whether
the plan is marked as having returned, and what has become of the world and the variables. -/
structure Account (σ : Type) where
  outcome : Except Halt Result
  returned : Bool
  setting : Setting σ

/-- One evaluation of a plan that was never evaluated before.  If it halts, the plan keeps the mark
that it had. -/
def Body.evaluation (call : Call → Run σ Result) (p : Program) (s : Scope σ) : Account σ :=
  match (p.run call .fresh).exec s with
  | (.ok (r, t), s') => { outcome := .ok r, returned := t.returned, setting := s'.setting }
  | (.error h, s') =>
    { outcome := .error h, returned := Trail.fresh.returned, setting := s'.setting }

/-- What can be seen of a computation that came to an ending or halted. -/
def Account.ofOutcome : Except Halt Ending × Setting σ → Account σ
  | (.ok e, s) => { outcome := .ok e.result, returned := e.stops, setting := s }
  | (.error h, s) => { outcome := .error h, returned := false, setting := s }

/-- A computation that halted is seen to have halted. -/
theorem Account.outcome_ofOutcome_error {x : Except Halt Ending × Setting σ} {h : Halt}
    (hx : x.1 = .error h) : (Account.ofOutcome x).outcome = .error h := by
  obtain ⟨r, s⟩ := x
  cases hx
  rfl

/-- What a plan means: it is to be marked if it stops before its end. -/
def Body.meaning (note : List Value → Except Fault Unit) (meant : Call → Act σ Result) (p : Program)
    (s : Setting σ) : Account σ :=
  .ofOutcome ((sequence note meant p.statements .none).exec s)

/-- A plan that was read has the meaning of its statements. -/
theorem Body.WellRead.evaluation_eq {call : Call → Run σ Result} {meant : Call → Act σ Result}
    (hcall : CallsAgree call meant) {p : Program} (h : p.WellRead) (s : Scope σ) :
    p.finish.evaluation call s =
      Account.ofOutcome ((sequence recording meant p.statements .none).exec s.setting) := by
  have hfinished : p.finish.finished = true := rfl
  have hagree := Body.run_agree hfinished (fun t ht => (h.listed t ht).agrees hcall)
    Trail.clear_fresh s
  change Agree _ _ ((sequence recording meant p.statements .none).exec s.setting) at hagree
  unfold Body.evaluation
  generalize (p.finish.run call .fresh).exec s = outcome at hagree
  generalize (sequence recording meant p.statements .none).exec s.setting = outcome' at hagree
  cases hagree with
  | value h => simp only [h.result, h.stops, Account.ofOutcome]
  | halt f s => rfl

/-- An evaluation that is not cut short by its record has the meaning of the plan. -/
theorem Body.meaning_recorded (kit : Toolkit σ) (p : Program) (s : Setting σ)
    (h : (p.meaning recording (kit.meaning recording) s).outcome ≠ .error (.fault .unwritable)) :
    p.meaning recording (kit.meaning recording) s =
      p.meaning unrecorded (kit.meaning unrecorded) s := by
  have hsequence := truncates_sequence (kit.truncatesWithin maxCallDepth) p.statements .none s
  rw [Body.meaning, Body.meaning]
  refine congrArg Account.ofOutcome (hsequence fun hcut => h ?_)
  exact Account.outcome_ofOutcome_error hcut

/-- **Evaluation with flags and marks has the meaning that is said without them.**  Take any text,
read as far as it can be, and any skills, whatever they do.  Evaluating the plan from any variables
gives the result that is meant or halts for the reason that is meant, makes the calls that are meant
in their order, leaves the world and the variables that are meant, and marks the plan exactly if it
is meant to stop.  This is so for the meaning in which values are written down at the same points,
and for the meaning proper unless a number was too long to be written. -/
theorem evaluation_eq_meaning (kit : Toolkit σ) (text : List Char) (world : σ)
    (bindings : Variables) :
    let plan := (Body.fresh.feed text).1
    let evaluated := plan.finish.evaluation kit.logged.call
      { world := (world, []), bindings := bindings }
    evaluated = plan.meaning recording (kit.logged.meaning recording)
        { world := (world, []), bindings := bindings } ∧
      (evaluated.outcome ≠ .error (.fault .unwritable) →
        evaluated = plan.meaning unrecorded (kit.logged.meaning unrecorded)
          { world := (world, []), bindings := bindings }) := by
  intro plan evaluated
  have hrecorded : evaluated = plan.meaning recording (kit.logged.meaning recording)
      { world := (world, []), bindings := bindings } :=
    (Body.wellRead_fresh.feed text).evaluation_eq (kit.logged.agreeWithin maxCallDepth) _
  refine ⟨hrecorded, fun hwritten => ?_⟩
  rw [hrecorded] at hwritten ⊢
  exact Body.meaning_recorded kit.logged plan _ hwritten

/-- A plan that compares the square of a variable. -/
def squareTest : Program := (Body.fresh.feed "?_1*_1>5\x7b_1=1;\x7d".toList).1

theorem squareTest_statements :
    squareTest.statements =
      [.block { text := "_1*_1>5" } .conditional
        { statements := [.action { text := "_1=1", named := true }]
          current := .fresh
          depth := 0
          finished := true }] := rfl

/-- The square as it is computed. -/
def square : Expr := .binary .mul (.binary .mul (.const (.int 1)) (.variable "_1")) (.variable "_1")

/-- The condition compares a product of three factors with 5: a product begins with 1. -/
theorem squareTest_condition :
    Condition.ofText "_1*_1>5".toList = .compare square .greater (.literal "5".toList) := by
  have hvariable : Expr.ofText "_1".toList = .variable "_1" := by
    rw [Expr.ofText]
    rfl
  have hfive : Expr.ofText "5".toList = .literal "5".toList := by
    rw [Expr.ofText]
    rfl
  have hsquare : Expr.ofText "_1*_1".toList = square := by
    rw [square, ← hvariable, Expr.ofText]
    rfl
  rw [← hsquare, ← hfive]
  rfl

/-- The scope in which the plan is evaluated. -/
def squareScope (n : Int) : Scope (Nat × List Invocation) :=
  { world := (0, []), bindings := .ofList [("_1", .int n)] }

/-- A square that cannot be written down halts the evaluation at the comparison. -/
theorem squareTest_halts {n : Int} (hlong : (Value.int (1 * n * n)).isWritable = false) :
    (squareTest.finish.run counter.logged.call .fresh).exec (squareScope n) =
      (.error (.fault .unwritable), squareScope n) := by
  have hsquare : (square.eval counter.logged.call).exec (squareScope n) =
      (.ok (.ofValue (.int (1 * n * n))), squareScope n) := rfl
  have hcondition : ((Condition.ofText "_1*_1>5".toList).eval counter.logged.call).exec
      (squareScope n) = (.error (.fault .unwritable), squareScope n) := by
    rw [squareTest_condition, Condition.eval, Run.exec_bind_ok hsquare]
    exact Run.exec_bind_error (Run.exec_record_error List.mem_cons_self hlong _) _
  have hall : (runAll counter.logged.call squareTest.statements [] .none).exec (squareScope n) =
      (.error (.fault .unwritable), squareScope n) := by
    rw [squareTest_statements, runAll_cons, Statement.run_conditional]
    exact Run.exec_bind_error (Run.exec_bind_error hcondition _) _
  exact Run.exec_bind_error hall _

/-- What the plan means when the square is larger than 5. -/
theorem squareTest_meaning {n : Int} (hlarge : 5 < 1 * n * n) :
    squareTest.meaning unrecorded (counter.logged.meaning unrecorded) (squareScope n).setting =
      { outcome := .ok (.ofValue (.int 1))
        returned := false
        setting := (squareScope 1).setting } := by
  have hsquare : (square.meaning (counter.logged.meaning unrecorded)).exec
      (squareScope n).setting = (.ok (.ofValue (.int (1 * n * n))), (squareScope n).setting) := rfl
  have hholds : Comparator.greater.holds (.int (1 * n * n)) (.int 5) = .ok true := by
    change Except.ok (decide (5 < 1 * n * n)) = _
    rw [decide_eq_true hlarge]
  have hcondition : ((Condition.ofText "_1*_1>5".toList).meaning unrecorded
      (counter.logged.meaning unrecorded)).exec (squareScope n).setting =
        (.ok (.holds true), (squareScope n).setting) := by
    rw [squareTest_condition, Condition.meaning, Act.exec_bind, hsquare]
    change ((Act.lift (Comparator.greater.holds (.int (1 * n * n)) (.int 5)) >>=
      fun holds => pure (.holds holds) : Act _ Verdict)).exec _ = _
    rw [hholds]
    rfl
  have hone : Expr.ofText "1".toList = .literal "1".toList := by
    rw [Expr.ofText]
    rfl
  have hassign : Expr.ofText "_1=1".toList = .assign "_1" (.literal "1".toList) := by
    rw [← hone, Expr.ofText]
    rfl
  rw [Body.meaning, squareTest_statements, sequence, Act.exec_bind, Statement.meaning_conditional,
    Act.exec_bind, hcondition]
  simp only [sequence, Statement.meaning]
  rw [hassign]
  rfl

/-- The square of a number with 4001 digits has too many. -/
theorem not_isWritable_square : (Value.int (1 * 10 ^ 4000 * 10 ^ 4000)).isWritable = false := by
  rw [← Bool.not_eq_true, Value.isWritable_int_iff]
  decide +kernel

/-- **A number that is too long to be written cannot be compared.**  The plan compares the square of
a number with 5.  The square is larger, so the plan means to set the variable to 1; its evaluation
halts, because the square cannot be written down. -/
theorem long_square_not_compared :
    (squareTest.finish.evaluation counter.logged.call (squareScope (10 ^ 4000))).outcome =
        .error (.fault .unwritable) ∧
      squareTest.meaning unrecorded (counter.logged.meaning unrecorded)
          (squareScope (10 ^ 4000)).setting =
        { outcome := .ok (.ofValue (.int 1))
          returned := false
          setting := (squareScope 1).setting } := by
  refine ⟨?_, squareTest_meaning (by decide +kernel)⟩
  rw [Body.evaluation, squareTest_halts not_isWritable_square]

end DronePilot.Plan
