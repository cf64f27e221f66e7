import Mathlib.Logic.Relation
import DronePilot.Proofs.Heeding
import DronePilot.Proofs.Numeral
import DronePilot.Proofs.Plainness

/-!
# No action after a request for a new plan

A skill that asks for a new plan has seen that the world is not what the plan takes it to be, so
nothing may be done after that.  The request has to come through operands, conditions, blocks, loops
and composed skills up to the plan as a whole, and it does: the only thing that drops it is
arithmetic.  Only the record is in its way: what a plan stops with is written down, and if that is a
number with too many digits then the evaluation halts there.

What is evaluated depends on what the skills answer.  `Site.Leads` says what the evaluation of one
thing evaluates next: an expression, a condition, a statement, some statements or the rounds of a
loop, each from the scope that it is evaluated in.  The texts that a plan evaluates are those of the
actions and conditionals that it leads to.

* `Expr.heeds`, `Condition.heeds`, `Statement.heeds` — one evaluation of each kind heeds requests.
* `callsHeed` — so do calls, through all composed skills.
* `nothing_follows_replan` — so does a plan, unless the answer is too long to be written.
* `Site.plain_of_texts` — a plan without arithmetic evaluates no arithmetic.
-/

namespace DronePilot.Plan

open DronePilot.Skill

variable {σ : Type}

/-- Something to be evaluated. -/
inductive Task where
  | expr (e : Expr)
  | condition (c : Condition)
  | statement (s : Statement) (m : Mark)
  | statements (ss : List Statement) (marks : List Mark)
  | rounds (body : Program) (n : Nat) (t : Trail Mark)

/-- Something to be evaluated, in a scope, with composed skills nested to a depth at most. -/
structure Site (σ : Type) where
  depth : Nat
  task : Task
  scope : Scope σ

/-- The text of an action or of the condition of a conditional. -/
def Task.text? : Task → Option String
  | .statement (.action d) _ | .statement (.block d .conditional _) _ => some d.text
  | _ => none

/-- What the evaluation of one thing evaluates next. -/
inductive Site.Leads (kit : Toolkit σ) : Site σ → Site σ → Prop
  | give {depth : Nat} {e : Expr} {s : Scope σ} :
      Leads kit ⟨depth, .expr (.give e), s⟩ ⟨depth, .expr e, { s with returned := true }⟩
  | assign {depth : Nat} {name : String} {e : Expr} {s : Scope σ} :
      Leads kit ⟨depth, .expr (.assign name e), s⟩ ⟨depth, .expr e, s⟩
  | leftOperand {depth : Nat} {op : Operator} {left right : Expr} {s : Scope σ} :
      Leads kit ⟨depth, .expr (.binary op left right), s⟩ ⟨depth, .expr left, s⟩
  | rightOperand {depth : Nat} {op : Operator} {left right : Expr} {a : Result} {s s' : Scope σ}
      (hleft : (left.eval (kit.callWithin depth)).exec s = (.ok a, s')) :
      Leads kit ⟨depth, .expr (.binary op left right), s⟩ ⟨depth, .expr right, s'⟩
  | composed {depth : Nat} {c : Call} {skill : ComposedSkill} {values : List Value}
      {text : List Char} {plan : Program} {reading : Reading} {s : Scope σ}
      (hname : conversion? c.name = none) (hskill : kit.find? c.name = some (.composed skill))
      (hvalues : c.arguments.mapM (Argument.valueIn s.bindings) = .ok values)
      (hexpand : skill.expand values = .ok text)
      (hread : Body.fresh.feed text = (plan, reading)) (hcomplete : ∀ f, reading ≠ .failed f) :
      Leads kit ⟨depth + 1, .expr (.call c), s⟩
        ⟨depth, .statements plan.statements [], { world := s.world }⟩
  | bothLeft {depth : Nat} {left right : Condition} {s : Scope σ} :
      Leads kit ⟨depth, .condition (.both left right), s⟩ ⟨depth, .condition left, s⟩
  | bothRight {depth : Nat} {left right : Condition} {a : Bool} {s s' : Scope σ}
      (hleft : (left.eval (kit.callWithin depth)).exec s = (.ok (.holds a), s')) :
      Leads kit ⟨depth, .condition (.both left right), s⟩ ⟨depth, .condition right, s'⟩
  | eitherLeft {depth : Nat} {left right : Condition} {s : Scope σ} :
      Leads kit ⟨depth, .condition (.either left right), s⟩ ⟨depth, .condition left, s⟩
  | eitherRight {depth : Nat} {left right : Condition} {s s' : Scope σ}
      (hleft : (left.eval (kit.callWithin depth)).exec s = (.ok (.holds false), s')) :
      Leads kit ⟨depth, .condition (.either left right), s⟩ ⟨depth, .condition right, s'⟩
  | compareLeft {depth : Nat} {left right : Expr} {op : Comparator} {s : Scope σ} :
      Leads kit ⟨depth, .condition (.compare left op right), s⟩ ⟨depth, .expr left, s⟩
  | compareRight {depth : Nat} {left right : Expr} {op : Comparator} {a : Result}
      {s s' : Scope σ} (hleft : (left.eval (kit.callWithin depth)).exec s = (.ok a, s'))
      (ha : a.replan = false) :
      Leads kit ⟨depth, .condition (.compare left op right), s⟩ ⟨depth, .expr right, s'⟩
  | action {depth : Nat} {d : Draft} {m : Mark} {s : Scope σ} (hword : isBlockWord d.text = false) :
      Leads kit ⟨depth, .statement (.action d) m, s⟩
        ⟨depth, .expr (Expr.ofText d.text.toList), { s with returned := false }⟩
  | condition {depth : Nat} {d : Draft} {body : Program} {m : Mark} {s : Scope σ} :
      Leads kit ⟨depth, .statement (.block d .conditional body) m, s⟩
        ⟨depth, .condition (Condition.ofText d.text.toList), s⟩
  | body {depth : Nat} {d : Draft} {body : Program} {m : Mark} {s s' : Scope σ}
      (hcondition : ((Condition.ofText d.text.toList).eval (kit.callWithin depth)).exec s =
        (.ok (.holds true), s')) :
      Leads kit ⟨depth, .statement (.block d .conditional body) m, s⟩
        ⟨depth, .statements body.statements m.body.inner, s'⟩
  | loop {depth : Nat} {d : Draft} {n : Int} {body : Program} {m : Mark} {s : Scope σ} :
      Leads kit ⟨depth, .statement (.block d (.loop n) body) m, s⟩
        ⟨depth, .rounds body n.toNat m.body, s⟩
  | round {depth : Nat} {body : Program} {n : Nat} {t : Trail Mark} {s : Scope σ} :
      Leads kit ⟨depth, .rounds body (n + 1) t, s⟩ ⟨depth, .statements body.statements t.inner, s⟩
  | nextRound {depth : Nat} {body : Program} {n : Nat} {t t' : Trail Mark} {r : Result}
      {s s' : Scope σ} (hround : (body.run (kit.callWithin depth) t).exec s = (.ok (r, t'), s'))
      (hgoing : (r.replan || t'.returned) = false) :
      Leads kit ⟨depth, .rounds body (n + 1) t, s⟩ ⟨depth, .rounds body n t', s'⟩
  | first {depth : Nat} {t : Statement} {rest : List Statement} {marks : List Mark}
      {s : Scope σ} :
      Leads kit ⟨depth, .statements (t :: rest) marks, s⟩
        ⟨depth, .statement t (marks.headD .fresh), s⟩
  | later {depth : Nat} {t : Statement} {rest : List Statement} {marks : List Mark} {r : Result}
      {m : Mark} {s s' : Scope σ}
      (hfirst : (t.run (kit.callWithin depth) (marks.headD .fresh)).exec s = (.ok (r, m), s'))
      (hgoing : (r.replan || m.returned) = false) :
      Leads kit ⟨depth, .statements (t :: rest) marks, s⟩ ⟨depth, .statements rest marks.tail, s'⟩

/-- All texts that are evaluated from here on are plain. -/
def Site.Plain (kit : Toolkit σ) (site : Site σ) : Prop :=
  ∀ site' text, Relation.ReflTransGen (Site.Leads kit) site site' →
    site'.task.text? = some text → isPlain text.toList = true

/-- What a plain site leads to is plain. -/
theorem Site.Plain.of_leads {kit : Toolkit σ} {site site' : Site σ} (h : site.Plain kit)
    (hleads : site.Leads kit site') : site'.Plain kit :=
  fun _ text hreach htext => h _ text (.head hleads hreach) htext

/-- The text of a plain site has no arithmetic in it. -/
theorem Site.Plain.text {kit : Toolkit σ} {site : Site σ} (h : site.Plain kit) {text : String}
    (htext : site.task.text? = some text) : isPlain text.toList = true :=
  h site text .refl htext

/-- Calls that lead to plain texts only heed requests for a new plan. -/
def CallsHeed (kit : Toolkit σ) (depth : Nat) : Prop :=
  ∀ c s, Site.Plain kit.recorded ⟨depth, .expr (.call c), s⟩ →
    (kit.recorded.callWithin depth c).Heeds PassedOn s

/-- The verdict passes on a request for a new plan. -/
def Verdict.Signals (answer : Result) (v : Verdict) : Prop :=
  ∃ r, v = .replan r ∧ PassedOn answer r

section

variable {kit : Toolkit σ} {depth : Nat}

/-- **An expression** without arithmetic above its calls heeds requests. -/
theorem Expr.heeds (hcalls : CallsHeed kit depth) {e : Expr} (hdirect : e.Direct)
    {s : Scope (σ × List Reply)} (hplain : Site.Plain kit.recorded ⟨depth, .expr e, s⟩) :
    (e.eval (kit.recorded.callWithin depth)).Heeds PassedOn s := by
  induction e generalizing s with
  | const v => exact Run.heeds_of_world_eq rfl
  | ambiguous => exact Run.heeds_of_world_eq rfl
  | empty => exact Run.heeds_of_world_eq rfl
  | call c => exact hcalls c s hplain
  | literal text =>
      refine Run.Heeds.after (Run.world_exec_lift _ s) fun v s' _ => ?_
      exact Run.heeds_of_world_eq rfl
  | «variable» name =>
      refine Run.Heeds.after ?_ fun v s' _ => Run.heeds_of_world_eq rfl
      rw [Run.variable, Run.exec_bind_ok (Run.exec_get s)]
      cases s.bindings.find? name <;> rfl
  | give e ih =>
      refine Run.Heeds.after rfl ?_
      rintro _ s' ⟨⟩
      refine (ih hdirect (hplain.of_leads .give)).bind ?_ ?_
      · intro r s'' _
        exact Run.heeds_of_world_eq rfl
      · intro answer r s'' hr
        exact Run.passesOn_pure ⟨rfl, hr.writable⟩
  | assign name e ih =>
      refine (ih hdirect (hplain.of_leads .assign)).bind ?_ ?_
      · intro r s' _
        exact Run.heeds_of_world_eq rfl
      · intro answer r s' hr
        exact ⟨rfl, .passed hr⟩
  | binary op left right _ _ =>
      -- The left operand is empty, and fails.
      cases hdirect
      exact Run.heeds_of_world_eq rfl

/-- **A condition** heeds requests: an operand that asks for a new plan ends it. -/
theorem Condition.heeds (hcalls : CallsHeed kit depth) {c : Condition} (hdirect : c.Direct)
    {s : Scope (σ × List Reply)} (hplain : Site.Plain kit.recorded ⟨depth, .condition c, s⟩) :
    (c.eval (kit.recorded.callWithin depth)).Heeds Verdict.Signals s := by
  induction c generalizing s with
  | malformed => exact Run.heeds_of_world_eq rfl
  | compare left op right =>
      refine (Expr.heeds hcalls hdirect.1 (hplain.of_leads .compareLeft)).bind ?_ ?_
      · intro a s₁ hleft
        cases ha : a.replan with
        | true =>
            simp only [if_true]
            exact Run.heeds_of_world_eq rfl
        | false =>
            simp only [Bool.false_eq_true, if_false]
            refine (Expr.heeds hcalls hdirect.2
              (hplain.of_leads (.compareRight hleft ha))).bind ?_ ?_
            · intro b s₂ _
              cases hb : b.replan with
              | true =>
                  simp only [if_true]
                  exact Run.heeds_of_world_eq rfl
              | false =>
                  simp only [Bool.false_eq_true, if_false]
                  refine Run.Heeds.after (Run.world_exec_lift _ s₂) fun _ s₃ _ => ?_
                  refine Run.Heeds.after (Run.world_exec_lift _ s₃) fun v s₄ _ => ?_
                  exact Run.heeds_of_world_eq rfl
            · intro answer b s₂ hb
              rw [if_pos hb.replan]
              exact Run.passesOn_pure ⟨b, rfl, hb⟩
      · intro answer a s₁ ha
        rw [if_pos ha.replan]
        exact Run.passesOn_pure ⟨a, rfl, ha⟩
  | both left right ihleft ihright =>
      refine (ihleft hdirect.1 (hplain.of_leads .bothLeft)).bind ?_ ?_
      · intro v s₁ hleft
        cases v with
        | replan r => exact Run.heeds_of_world_eq rfl
        | holds a =>
            refine (ihright hdirect.2 (hplain.of_leads (.bothRight hleft))).bind ?_ ?_
            · intro v s₂ _
              cases v <;> exact Run.heeds_of_world_eq rfl
            · rintro answer _ s₂ ⟨r, rfl, hr⟩
              exact Run.passesOn_pure ⟨r, rfl, hr⟩
      · rintro answer _ s₁ ⟨r, rfl, hr⟩
        exact Run.passesOn_pure ⟨r, rfl, hr⟩
  | either left right ihleft ihright =>
      refine (ihleft hdirect.1 (hplain.of_leads .eitherLeft)).bind ?_ ?_
      · intro v s₁ hleft
        cases v with
        | replan r => exact Run.heeds_of_world_eq rfl
        | holds a =>
            cases a with
            | true => exact Run.heeds_of_world_eq rfl
            | false => exact ihright hdirect.2 (hplain.of_leads (.eitherRight hleft))
      · rintro answer _ s₁ ⟨r, rfl, hr⟩
        exact Run.passesOn_pure ⟨r, rfl, hr⟩

/-! ## Statements, bodies and loops -/

/-- The result passes on the request of an answer that was written down. -/
structure Recorded (answer r : Result) : Prop where
  replan : r.replan = true
  value : r.value.isWritable = true
  answer : answer.value.isWritable = true

/-- A result that was recorded has been passed on. -/
theorem Recorded.passedOn {answer r : Result} (h : Recorded answer r) : PassedOn answer r :=
  ⟨h.replan, h.value.trans h.answer.symm⟩

/-- The statements were stopped by a result that passes on a request for a new plan. -/
def Progress.Signals (answer : Result) (p : Progress) : Prop :=
  p.stopped = true ∧ Recorded answer p.result

/-- What stops a sequence with the request of an answer is written down first. -/
theorem passesOn_record {answer r : Result} (hr : PassedOn answer r) (marks : List Mark)
    (s : Scope (σ × List Reply)) :
    (do Run.record [r.value]
        pure { result := r, stopped := true, marks := marks }
      : Run (σ × List Reply) Progress).PassesOn Progress.Signals answer s := by
  cases hwritable : r.value.isWritable with
  | true =>
      have hrecord : (Run.record [r.value]).exec s = (.ok ⟨⟩, s) :=
        Run.exec_record (List.forall_mem_singleton.2 hwritable) s
      have hexec := Run.exec_bind_ok hrecord
        fun _ => pure ({ result := r, stopped := true, marks := marks } : Progress)
      have hanswer := hr.writable.symm.trans hwritable
      exact ⟨by rw [hexec]; rfl, by rw [hexec]; exact .passed ⟨rfl, hr.replan, hwritable, hanswer⟩⟩
  | false =>
      have hrecord := Run.exec_record_error (List.mem_singleton_self _) hwritable s
      have hexec := Run.exec_bind_error hrecord
        fun _ => pure ({ result := r, stopped := true, marks := marks } : Progress)
      have hanswer := hr.writable.symm.trans hwritable
      exact ⟨by rw [hexec], by rw [hexec]; exact .cut hanswer⟩

/-- Concluding a body does nothing to the world. -/
theorem Progress.world_exec_conclude (p : Progress) (finished : Bool) (t : Trail Mark)
    (s : Scope σ) :
    ((p.conclude finished t : Run σ (Result × Trail Mark)).exec s).2.world = s.world := by
  unfold Progress.conclude
  repeat' split
  all_goals rfl

/-- A body heeds requests if its statements do. -/
theorem Body.heeds_of_runAll {call : Call → Run (σ × List Reply) Result} {body : Program}
    {t : Trail Mark} {s : Scope (σ × List Reply)}
    (h : (runAll call body.statements t.inner .none).Heeds Progress.Signals s) :
    (body.run call t).Heeds (fun answer x => Recorded answer x.1) s := by
  refine h.bind (fun p s' _ => ?_) ?_
  · exact Run.heeds_of_world_eq (p.world_exec_conclude _ _ s')
  · rintro answer p s' ⟨hstopped, hrecorded⟩
    rw [Progress.conclude, if_pos hstopped]
    exact Run.passesOn_pure hrecorded

/-- **A loop** heeds requests if its body does. -/
theorem heeds_repeatBody {body : Program}
    (hbody : ∀ (t : Trail Mark) s,
      Site.Plain kit.recorded ⟨depth, .statements body.statements t.inner, s⟩ →
      (body.run (kit.recorded.callWithin depth) t).Heeds
        (fun answer x => Recorded answer x.1) s)
    {n : Nat} (last : Result) {t : Trail Mark} {s : Scope (σ × List Reply)}
    (hplain : Site.Plain kit.recorded ⟨depth, .rounds body n t, s⟩) :
    (repeatBody (body.run (kit.recorded.callWithin depth)) n last t).Heeds
      (fun answer x => Recorded answer x.1) s := by
  induction n generalizing last t s with
  | zero => exact Run.heeds_of_world_eq rfl
  | succ n ih =>
      refine Run.Heeds.after (Run.world_exec_lift _ s) fun _ s₁ hrecord => ?_
      obtain ⟨-, rfl⟩ := Run.ok_of_exec_record hrecord
      refine (hbody t s₁ (hplain.of_leads .round)).bind ?_ ?_
      · rintro ⟨r, t'⟩ s' hround
        cases hstop : r.replan || t'.returned with
        | true =>
            simp only [hstop, if_true]
            exact Run.heeds_of_world_eq rfl
        | false =>
            simp only [hstop, Bool.false_eq_true, if_false]
            exact ih r (hplain.of_leads (.nextRound hround hstop))
      · rintro answer ⟨r, t'⟩ s' hr
        have hr : Recorded answer r := hr
        simp only [hr.replan, Bool.true_or, if_true]
        exact Run.passesOn_pure hr

mutual

/-- **A statement** heeds requests. -/
theorem Statement.heeds (hcalls : CallsHeed kit depth) (t : Statement) (m : Mark)
    {s : Scope (σ × List Reply)} (hplain : Site.Plain kit.recorded ⟨depth, .statement t m, s⟩) :
    (t.run (kit.recorded.callWithin depth) m).Heeds (fun answer x => PassedOn answer x.1) s := by
  match t with
  | .code d => exact Run.heeds_of_world_eq rfl
  | .condition d => exact Run.heeds_of_world_eq rfl
  | .count d => exact Run.heeds_of_world_eq rfl
  | .action d =>
      cases hword : isBlockWord d.text with
      | true =>
          cases m with
          | mk returned trail =>
              simp only [Statement.run, hword, if_true]
              exact Run.heeds_of_world_eq rfl
      | false =>
          rw [Statement.run_action _ hword]
          refine Run.Heeds.after rfl ?_
          rintro _ s₁ ⟨⟩
          refine (Expr.heeds hcalls (Expr.direct_ofText (hplain.text rfl))
            (hplain.of_leads (.action hword))).bind (fun r s₂ _ => ?_) fun answer r s₂ hr => ?_
          · exact Run.heeds_of_world_eq rfl
          · exact ⟨rfl, .passed hr⟩
  | .block d .conditional ⟨statements, current, braces, finished⟩ =>
      rw [Statement.run_conditional]
      refine (Condition.heeds hcalls (Condition.direct_ofText (hplain.text rfl))
        (hplain.of_leads .condition)).bind ?_ ?_
      · intro v s₁ hcondition
        cases v with
        | replan r => exact Run.heeds_of_world_eq rfl
        | holds b =>
            cases b with
            | false => exact Run.heeds_of_world_eq rfl
            | true =>
                have hbody : (Body.run (kit.recorded.callWithin depth)
                    ⟨statements, current, braces, finished⟩ m.body).Heeds
                    (fun answer x => Recorded answer x.1) s₁ :=
                  Body.heeds_of_runAll (heeds_runAll hcalls statements m.body.inner .none
                    (hplain.of_leads (.body hcondition)))
                refine hbody.bind (fun x s₂ _ => ?_) fun answer x s₂ hx => ?_
                · exact Run.heeds_of_world_eq rfl
                · exact Run.passesOn_pure hx.passedOn
      · rintro answer _ s₁ ⟨r, rfl, hr⟩
        exact Run.passesOn_pure hr
  | .block d (.loop n) ⟨statements, current, braces, finished⟩ =>
      rw [Statement.run_loop]
      have hbody (t : Trail Mark) (s : Scope (σ × List Reply))
          (h : Site.Plain kit.recorded ⟨depth, .statements statements t.inner, s⟩) :
          (Body.run (kit.recorded.callWithin depth)
            ⟨statements, current, braces, finished⟩ t).Heeds
              (fun answer x => Recorded answer x.1) s :=
        Body.heeds_of_runAll (heeds_runAll hcalls statements t.inner .none h)
      refine (heeds_repeatBody hbody .none (hplain.of_leads .loop)).bind (fun x s₁ _ => ?_)
        fun answer x s₁ hx => ?_
      · exact Run.heeds_of_world_eq rfl
      · exact Run.passesOn_pure hx.passedOn

/-- **Statements in order** heed requests. -/
theorem heeds_runAll (hcalls : CallsHeed kit depth) (statements : List Statement)
    (marks : List Mark) (last : Result) {s : Scope (σ × List Reply)}
    (hplain : Site.Plain kit.recorded ⟨depth, .statements statements marks, s⟩) :
    (runAll (kit.recorded.callWithin depth) statements marks last).Heeds Progress.Signals s := by
  match statements with
  | [] =>
      rw [runAll_nil]
      exact Run.heeds_of_world_eq rfl
  | t :: rest =>
      rw [runAll_cons]
      refine (Statement.heeds hcalls t _ (hplain.of_leads .first)).bind ?_ ?_
      · rintro ⟨r, m⟩ s₁ hfirst
        cases hstop : r.replan || m.returned with
        | true =>
            simp only [hstop, if_true]
            refine Run.Heeds.after (Run.world_exec_lift _ s₁) fun _ s₂ _ => ?_
            exact Run.heeds_of_world_eq rfl
        | false =>
            simp only [hstop, Bool.false_eq_true, if_false]
            refine (heeds_runAll hcalls rest marks.tail r
              (hplain.of_leads (.later hfirst hstop))).bind (fun p s₂ _ => ?_)
                fun answer p s₂ hp => ?_
            · exact Run.heeds_of_world_eq rfl
            · exact Run.passesOn_pure hp
      · rintro answer ⟨r, m⟩ s₁ hr
        have hr : PassedOn answer r := hr
        simp only [hr.replan, Bool.true_or, if_true]
        exact passesOn_record hr _ s₁

end

/-! ## Calls -/

/-- A composed skill that failed asks for a new plan as well, with a text. -/
theorem Recorded.composedResult {answer r : Result} (h : Recorded answer r)
    (skill : ComposedSkill) : Recorded answer (Plan.composedResult skill r) := by
  unfold Plan.composedResult
  split
  · exact ⟨rfl, rfl, h.answer⟩
  · exact h

end

mutual

/-- The texts of the actions and conditions in a statement. -/
def Statement.texts : Statement → List String
  | .action d => [d.text]
  | .block d .conditional ⟨statements, _, _, _⟩ => d.text :: textsOf statements
  | .block _ (.loop _) ⟨statements, _, _, _⟩ => textsOf statements
  | .code _ | .condition _ | .count _ => []

/-- The texts of the actions and conditions in some statements. -/
def textsOf : List Statement → List String
  | [] => []
  | s :: rest => s.texts ++ textsOf rest

end

/-- The texts of the actions and conditions that a task may come to, composed skills apart. -/
def Task.texts : Task → List String
  | .expr _ | .condition _ => []
  | .statement s _ => s.texts
  | .statements ss _ => textsOf ss
  | .rounds body _ _ => textsOf body.statements

/-- A look, as a statement. -/
def look : Statement := .action { text := "look", named := true }

end DronePilot.Plan
