import DronePilot.Proofs.Conduct
import DronePilot.Proofs.Spacing
import DronePilot.Proofs.Structured

/-!
# Blanks between the parts of a plan

A spaced text is read as statements that stand for the same as those of the plan, with statements of
blanks among them if blanks stand alone somewhere.  A statement of blanks halts when it is
evaluated.  So the evaluation of a spaced text does what that of the plan does, and then either ends
as it does or halts at such blanks.

* `SameOrCut.bind` — one computation after another is the same or cut short, if the first ones are
  and what follows them is.
* `Loosens.sameOrCut` — the statements of a spaced text do the same as those of the plan, or are cut
  short.
* `Toolkit.evaluateText_concat` — what one more statement does at the end of a plan.
* `spacing_keeps_meaning` — blanks that do not stand alone, nor before an equals sign, change
  nothing; the others do.
-/

namespace DronePilot.Plan

open DronePilot.Skill

variable {σ α β : Type}

/-! ### Evaluating a text -/

/-- One evaluation of a plan that is given as a text, with a log of its calls. -/
def Toolkit.evaluateText (kit : Toolkit σ) (text : List Char) (world : σ) (bindings : Variables) :
    Account (σ × List Invocation) :=
  (Body.fresh.feed text).1.finish.evaluation kit.logged.call
    { world := (world, []), bindings := bindings }

/-- The plan came to its end, so that a further statement would be evaluated. -/
def Account.goesOn (a : Account σ) : Bool :=
  match a.outcome with
  | .ok _ => !a.returned
  | .error _ => false

/-- Evaluating a text comes to what the statements read from it mean. -/
theorem Toolkit.evaluateText_eq (kit : Toolkit σ) (text : List Char) (world : σ)
    (bindings : Variables) :
    kit.evaluateText text world bindings =
      Account.ofOutcome
        ((sequence recording (kit.logged.meaning recording)
          (Body.fresh.feed text).1.statements .none).exec
          { world := (world, []), bindings := bindings }) :=
  (Body.wellRead_fresh.feed text).evaluation_eq (kit.logged.agreeWithin maxCallDepth) _

/-! ### Calls are only added -/

/-- Computations that agree leave the same world and variables. -/
theorem Agree.setting_eq {rel : α → Bool → β → Prop} {x : Except Halt α × Scope σ}
    {y : Except Halt β × Setting σ} (h : Agree rel x y) : y.2 = x.2.setting := by
  cases h with
  | value _ => rfl
  | halt _ _ => rfl

/-- Evaluations add to the log of the calls. -/
def Toolkit.loggingConduct (kit : Toolkit σ) : Conduct kit.logged :=
  Conduct.ofWorld kit.logged (fun w w' => w.2 <+: w'.2) (fun _ _ => True)
    (fun w => List.prefix_refl w.2) (fun huv hvw => huv.trans hvw) (fun _ _ => trivial)
    (fun _ _ _ => ⟨List.prefix_append _ _, fun _ _ => trivial⟩)

/-- The computation only adds to the log of the calls. -/
def Act.Logs (x : Act (σ × List Invocation) α) : Prop :=
  ∀ s, s.world.2 <+: (x.exec s).2.world.2

namespace Act.Logs

theorem pure (a : α) : (Pure.pure a : Act (σ × List Invocation) α).Logs :=
  fun s => List.prefix_refl s.world.2

/-- A computation in two parts only adds to the log if both parts do. -/
theorem bind {x : Act (σ × List Invocation) α} {f : α → Act (σ × List Invocation) β} (hx : x.Logs)
    (hf : ∀ a, (f a).Logs) : (x >>= f).Logs := by
  intro s
  have hfirst := hx s
  rw [Act.exec_bind]
  generalize x.exec s = outcome at hfirst
  obtain ⟨r, s'⟩ := outcome
  cases r with
  | ok a => exact hfirst.trans (hf a s')
  | error h => exact hfirst

/-- Whole statements, from the evaluator that marks them. -/
theorem sequence (kit : Toolkit σ) {statements : List Statement} (h : ∀ t ∈ statements, t.Whole)
    (last : Result) :
    (Plan.sequence recording (kit.logged.meaning recording) statements last).Logs := by
  cases statements with
  | nil =>
      rw [Plan.sequence]
      exact pure _
  | cons t rest =>
      intro s
      -- The result before the first statement is not used.
      have hlast : Plan.sequence recording (kit.logged.meaning recording) (t :: rest) last =
          Plan.sequence recording (kit.logged.meaning recording) (t :: rest) .none := by
        rw [Plan.sequence, Plan.sequence]
      let scope : Scope (σ × List Invocation) := { world := s.world, bindings := s.bindings }
      have hagree := runAll_agree (fun t ht =>
        (h t ht).agrees (kit.logged.agreeWithin maxCallDepth)) (List.forall_mem_nil Mark.Clear)
        (show Result.none.replan = false from rfl) scope
      have hkeeps := keeps_runAll (K := kit.loggingConduct) (fun t ht =>
        (h t ht).keeps kit.loggingConduct.callsKeep) [] (s := scope) (fun _ _ _ => trivial)
        (Conduct.admitsResult_none _)
      rw [hlast]
      change _ <+: ((Plan.sequence recording (kit.logged.meaningWithin recording maxCallDepth)
        (t :: rest) .none).exec scope.setting).2.world.2
      rw [hagree.setting_eq]
      exact hkeeps.leads

/-- A pure computation that may fail adds nothing to the log. -/
theorem lift (x : Except Fault α) : (Act.lift x : Act (σ × List Invocation) α).Logs := by
  intro s
  cases x <;> exact List.prefix_refl s.world.2

/-- What follows a part that may stop. -/
theorem unless_stopped (e : Ending) {x y : Act (σ × List Invocation) Ending} (hx : x.Logs)
    (hy : y.Logs) : (if e.stops then x else y).Logs := by
  cases e.stops with
  | true => exact hx
  | false => exact hy

/-- The rounds of a loop only add to the log if each of them does. -/
theorem rounds {once : Act (σ × List Invocation) Ending} (h : once.Logs) (n : Nat)
    (last : Result) : (Plan.rounds recording once n last).Logs := by
  induction n generalizing last with
  | zero => exact pure _
  | succ n ih =>
      rw [Plan.rounds]
      exact (lift _).bind fun _ => h.bind fun e => unless_stopped e (pure e) (ih e.result)

end Act.Logs

/-! ### The same, or cut short -/

/-- What the second computation came to is what the first one came to, or it halted at blanks that
stand alone, after some of the calls of the first one. -/
inductive SameOrCut (alone : Bool) (x : Except Halt α × Setting (σ × List Invocation)) :
    Except Halt α × Setting (σ × List Invocation) → Prop
  | same : SameOrCut alone x x
  | cut {s : Setting (σ × List Invocation)} (halone : alone = true)
      (hcalls : s.world.2 <+: x.2.world.2) :
      SameOrCut alone x (.error (.fault .emptyOperand), s)

/-- **One computation after another** is the same or cut short. -/
theorem SameOrCut.bind {alone : Bool} {x y : Act (σ × List Invocation) α}
    {f g : α → Act (σ × List Invocation) β} {s : Setting (σ × List Invocation)}
    (h : SameOrCut alone (x.exec s) (y.exec s)) (hlogs : ∀ a, (f a).Logs)
    (hnext : ∀ a s', SameOrCut alone ((f a).exec s') ((g a).exec s')) :
    SameOrCut alone ((x >>= f).exec s) ((y >>= g).exec s) := by
  rw [Act.exec_bind, Act.exec_bind]
  generalize x.exec s = outcome at h
  generalize y.exec s = outcome' at h
  obtain ⟨r, s₁⟩ := outcome
  cases h with
  | same =>
      cases r with
      | ok a => exact hnext a s₁
      | error h => exact .same
  | cut halone hcalls =>
      refine .cut halone ?_
      cases r with
      | ok a => exact hcalls.trans (hlogs a s₁)
      | error h => exact hcalls

/-- What follows a part that may stop. -/
theorem SameOrCut.unless_stopped {alone : Bool} (e : Ending)
    {stop x y : Act (σ × List Invocation) Ending} {s : Setting (σ × List Invocation)}
    (h : SameOrCut alone (x.exec s) (y.exec s)) :
    SameOrCut alone ((if e.stops then stop else x).exec s)
      ((if e.stops then stop else y).exec s) := by
  cases e.stops with
  | true => exact .same
  | false => exact h

/-- If a round is the same or cut off, so are the rounds. -/
theorem SameOrCut.rounds {alone : Bool} {once once' : Act (σ × List Invocation) Ending}
    (hlogs : once.Logs) (h : ∀ s, SameOrCut alone (once.exec s) (once'.exec s)) (n : Nat)
    (last : Result) (s : Setting (σ × List Invocation)) :
    SameOrCut alone ((Plan.rounds recording once n last).exec s)
      ((Plan.rounds recording once' n last).exec s) := by
  induction n generalizing last s with
  | zero => exact .same
  | succ n ih =>
      rw [Plan.rounds, Plan.rounds]
      have hround (e : Ending) : (if e.stops then pure e else
          Plan.rounds recording once n e.result : Act (σ × List Invocation) Ending).Logs :=
        .unless_stopped e (.pure e) (hlogs.rounds n e.result)
      refine SameOrCut.bind .same (fun _ => hlogs.bind hround) fun _ s₁ => ?_
      exact (h s₁).bind hround fun e s₂ => .unless_stopped e (ih e.result s₂)

/-- Statements of which the first ones and the others are the same or cut short. -/
theorem SameOrCut.sequence {alone : Bool} {kit : Toolkit σ} {t t' : Statement}
    {xs ys : List Statement} (hwhole : ∀ x ∈ xs, x.Whole)
    (hfirst : ∀ s, SameOrCut alone ((t.meaning recording (kit.logged.meaning recording)).exec s)
      ((t'.meaning recording (kit.logged.meaning recording)).exec s))
    (hrest : ∀ last s,
      SameOrCut alone ((Plan.sequence recording (kit.logged.meaning recording) xs last).exec s)
        ((Plan.sequence recording (kit.logged.meaning recording) ys last).exec s))
    (last : Result) (s : Setting (σ × List Invocation)) :
    SameOrCut alone ((Plan.sequence recording (kit.logged.meaning recording) (t :: xs) last).exec s)
      ((Plan.sequence recording (kit.logged.meaning recording) (t' :: ys) last).exec s) := by
  rw [Plan.sequence, Plan.sequence]
  refine (hfirst s).bind (fun e => ?_) fun e s' => ?_
  · have hstop : (do Act.lift (recording [e.result.value]); pure e :
        Act (σ × List Invocation) Ending).Logs := (Act.Logs.lift _).bind fun _ => .pure e
    exact .unless_stopped e hstop (.sequence kit hwhole e.result)
  · exact .unless_stopped e (hrest e.result s')

/-! ### Statements -/

/-- Blanks are no expression. -/
theorem Statement.exec_meaning_blanks (note : List Value → Except Fault Unit)
    (meant : Call → Act σ Result) {d : Draft} (hd : Blanks d.text.toList) (s : Setting σ) :
    ((Statement.action d).meaning note meant).exec s = (.error (.fault .emptyOperand), s) := by
  have hword : isBlockWord d.text = false := by
    rw [Bool.eq_false_iff]
    intro hword
    simp only [isBlockWord, Bool.or_eq_true, beq_iff_eq] at hword
    rcases hword with hword | hword <;> rw [hword] at hd <;> exact absurd hd (by decide)
  have hempty : Expr.ofText d.text.toList = .empty := by
    have hpadded := Expr.ofText_padded hd blanks_nil []
    rw [List.append_nil, List.append_nil] at hpadded
    rw [hpadded, Expr.ofText]
    rfl
  rw [Statement.meaning, hword, hempty]
  rfl

/-- Statements that may be loosened are whole. -/
theorem Loosens.whole {leeway : Leeway} {xs ys : List Statement} (h : Loosens leeway xs ys) :
    ∀ x ∈ xs, x.Whole := by
  induction h with
  | none => exact List.forall_mem_nil _
  | blank _ _ _ ih => exact ih
  | action _ _ _ _ ih => exact List.forall_mem_cons.2 ⟨.action _, ih⟩
  | block _ _ _ ihbody ih => exact List.forall_mem_cons.2 ⟨.block ihbody rfl, ih⟩

/-- **The statements of a spaced text do the same**, or are cut short at blanks that stand alone.
The induction is on how the statements were spaced. -/
theorem Loosens.sameOrCut (kit : Toolkit σ) {leeway : Leeway} (hsign : leeway.beforeSign = false)
    {xs ys : List Statement} (h : Loosens leeway xs ys) (last : Result)
    (s : Setting (σ × List Invocation)) :
    SameOrCut leeway.alone ((sequence recording (kit.logged.meaning recording) xs last).exec s)
      ((sequence recording (kit.logged.meaning recording) ys last).exec s) := by
  induction h generalizing last s with
  | none => exact .same
  | @blank d xs ys halone hd h _ =>
      have hblank : (sequence recording (kit.logged.meaning recording) (.action d :: ys) last).exec
          s = (.error (.fault .emptyOperand), s) := by
        rw [sequence, Act.exec_bind, Statement.exec_meaning_blanks _ _ hd]
      rw [hblank]
      exact .cut halone (Act.Logs.sequence kit h.whole last s)
  | @action d d' xs ys hword hword' hexpr h ih =>
      have hmeaning : (Statement.action d').meaning recording (kit.logged.meaning recording) =
          (Statement.action d).meaning recording (kit.logged.meaning recording) := by
        rw [Statement.meaning, Statement.meaning, hword, hword', hexpr hsign]
      refine .sequence h.whole (fun s => ?_) ih last s
      rw [hmeaning]
      exact .same
  | @block d d' head body body' xs ys hcondition hbody h ihbody ih =>
      refine .sequence h.whole (fun s => ?_) ih last s
      cases head with
      | conditional =>
          rw [Statement.meaning_conditional, Statement.meaning_conditional, hcondition rfl]
          refine SameOrCut.bind .same (fun v => ?_) fun v s' => ?_
          · cases v with
            | replan r => exact .pure _
            | holds b =>
                cases b with
                | false => exact .pure _
                | true => exact .sequence kit hbody.whole .none
          · cases v with
            | replan r => exact .same
            | holds b =>
                cases b with
                | false => exact .same
                | true => exact ihbody .none s'
      | loop n =>
          rw [Statement.meaning_loop, Statement.meaning_loop]
          exact .rounds (.sequence kit hbody.whole .none) (ihbody .none) n.toNat .none s

/-- **One more statement** is evaluated if those before it neither halt nor stop. -/
theorem sequence_concat (note : List Value → Except Fault Unit) (meant : Call → Act σ Result)
    (statements : List Statement) (t : Statement) (last : Result) (s : Setting σ) :
    (sequence note meant (statements ++ [t]) last).exec s =
      match (sequence note meant statements last).exec s with
      | (.ok e, s') => if e.stops then (.ok e, s') else (sequence note meant [t] e.result).exec s'
      | (.error h, s') => (.error h, s') := by
  induction statements generalizing last s with
  | nil =>
      simp only [List.nil_append, sequence]
      rfl
  | cons first rest ih =>
      rw [List.cons_append, sequence, sequence, Act.exec_bind, Act.exec_bind]
      generalize (first.meaning note meant).exec s = outcome
      obtain ⟨r, s'⟩ := outcome
      cases r with
      | error h => rfl
      | ok e =>
          cases hstops : e.stops with
          | true =>
              simp only [hstops, if_true]
              cases note [e.result.value] with
              | error f => rfl
              | ok _ => simp [Act.lift, hstops]
          | false => simpa [hstops] using ih e.result s'

/-- An assignment gives its variable the value, if there is one. -/
theorem Statement.exec_meaning_assign (note : List Value → Except Fault Unit)
    (meant : Call → Act σ Result) {d : Draft} (hword : isBlockWord d.text = false) {name : String}
    {e : Expr} (hexpr : Expr.ofText d.text.toList = .assign name e) (s : Setting σ) :
    ((Statement.action d).meaning note meant).exec s =
      match (e.meaning meant).exec s with
      | (.ok y, s') =>
        (.ok { result := y.result, stops := y.result.replan || y.returns },
          { s' with bindings := s'.bindings.insert name y.result.value })
      | (.error h, s') => (.error h, s') := by
  rw [Statement.meaning, hword, hexpr, Expr.meaning]
  simp only [Bool.false_eq_true, if_false]
  rw [Act.exec_bind, Act.exec_bind]
  generalize (e.meaning meant).exec s = outcome
  obtain ⟨r, s'⟩ := outcome
  cases r with
  | ok y => rfl
  | error h => rfl

/-! ### Texts -/

/-- A text is read as its statements, to its end. -/
theorem ReadsAs.statements_feed {text : List Char} {statements : List Statement}
    (h : ReadsAs false text statements) :
    (Body.fresh.feed text).1.statements = statements ∧ (Body.fresh.feed text).2 = .more := by
  rw [h.feed_eq rfl]
  exact ⟨List.nil_append _, rfl⟩

/-- Blanks at the end of a plan are under way, and are no statement. -/
theorem SpacedReading.statements_feed {leeway : Leeway} {trees : List Tree} {text : List Char}
    (h : SpacedReading leeway false trees text) :
    (Body.fresh.feed text).2 = .more ∧
      Loosens leeway (Tree.statements trees) (Body.fresh.feed text).1.statements := by
  obtain ⟨statements, before, gap, rfl, hgap, -, hread, hloosens⟩ := h
  rw [Body.feed_append_of_more (hread.feed_eq rfl), Body.feed_blanks rfl hgap]
  exact ⟨rfl, hloosens⟩

/-- **One more statement of a text.** -/
theorem Toolkit.evaluateText_concat (kit : Toolkit σ) {text more : List Char}
    {statements : List Statement} {t : Statement} (htext : ReadsAs false text statements)
    (hmore : ReadsAs true more [t]) (world : σ) (bindings : Variables) :
    kit.evaluateText (text ++ (more ++ [';'])) world bindings =
      if (kit.evaluateText text world bindings).goesOn then
        Account.ofOutcome ((sequence recording (kit.logged.meaning recording) [t] .none).exec
          (kit.evaluateText text world bindings).setting)
      else kit.evaluateText text world bindings := by
  rw [Toolkit.evaluateText_eq, Toolkit.evaluateText_eq, htext.statements_feed.1,
    (htext.append hmore.marked).statements_feed.1, sequence_concat]
  generalize (sequence recording (kit.logged.meaning recording) statements .none).exec _ = outcome
  obtain ⟨r, s⟩ := outcome
  cases r with
  | error h => rfl
  | ok e =>
      cases hstops : e.stops with
      | true => simp [Account.ofOutcome, Account.goesOn, hstops]
      | false => simp [Account.ofOutcome, Account.goesOn, hstops, sequence]

/-- The two accounts are the same, but for the name of the variable that was given a value last. -/
def Account.Renames (name name' : String) (a a' : Account σ) : Prop :=
  ((∃ h, a.outcome = .error h) ∧ a' = a) ∨
    ∃ before v, a.setting.bindings = Table.insert before name v ∧
      a' = { a with setting := { a.setting with bindings := before.insert name' v } }

/-- Assignments of the same value to two names differ in the name that gets it. -/
theorem Account.renames_assign (note : List Value → Except Fault Unit)
    (meant : Call → Act σ Result) {a a' : ActionText} {name name' : String} {e : Expr}
    (ha : Expr.ofText a.text.toList = .assign name e)
    (ha' : Expr.ofText a'.text.toList = .assign name' e) (last : Result) (s : Setting σ) :
    Account.Renames name name'
      (.ofOutcome ((sequence note meant [.action a.draft] last).exec s))
      (.ofOutcome ((sequence note meant [.action a'.draft] last).exec s)) := by
  rw [sequence, sequence, Act.exec_bind, Act.exec_bind,
    Statement.exec_meaning_assign note meant (d := a.draft) a.no_block_word ha,
    Statement.exec_meaning_assign note meant (d := a'.draft) a'.no_block_word ha']
  generalize (e.meaning meant).exec s = outcome
  obtain ⟨r, s'⟩ := outcome
  cases r with
  | error h => exact Or.inl ⟨⟨h, rfl⟩, rfl⟩
  | ok y =>
      refine Or.inr ⟨s'.bindings, y.result.value, ?_⟩
      simp only [sequence]
      generalize (y.result.replan || y.returns) = stops
      cases stops with
      | false => exact ⟨rfl, rfl⟩
      | true =>
          cases note [y.result.value] with
          | error f => exact ⟨rfl, rfl⟩
          | ok _ => exact ⟨rfl, rfl⟩

section

variable (kit : Toolkit σ) (world : σ) (bindings : Variables)

/-- A spaced text does what the text does, or halts at blanks that stand alone. -/
theorem Spaced.evaluateText_eq_or_cut {leeway : Leeway} {trees : List Tree}
    {text text' : List Char} (h : Spaced leeway false trees text text')
    (hsign : leeway.beforeSign = false) :
    kit.evaluateText text' world bindings = kit.evaluateText text world bindings ∨
      leeway.alone = true ∧
        (kit.evaluateText text' world bindings).outcome = .error (.fault .emptyOperand) ∧
        (kit.evaluateText text' world bindings).setting.world.2 <+:
          (kit.evaluateText text world bindings).setting.world.2 := by
  have hcut := h.reads.statements_feed.2.sameOrCut kit hsign .none
    { world := (world, []), bindings := bindings }
  rw [Toolkit.evaluateText_eq, Toolkit.evaluateText_eq, h.written.readsAs.statements_feed.1]
  generalize (sequence recording (kit.logged.meaning recording) (Tree.statements trees) .none).exec
    _ = x at hcut
  generalize (sequence recording (kit.logged.meaning recording)
    (Body.fresh.feed text').1.statements .none).exec _ = y at hcut
  cases hcut with
  | same => exact Or.inl rfl
  | cut halone hcalls =>
      refine Or.inr ⟨halone, rfl, ?_⟩
      obtain ⟨r, s⟩ := x
      cases r with
      | ok e => exact hcalls
      | error h => exact hcalls

variable {text : List Char} {statements : List Statement}

/-- Blanks and a mark halt every plan that gets there. -/
theorem ReadsAs.evaluateText_blanks (h : ReadsAs false text statements) {gap : List Char}
    (hgap : Blanks gap) (hne : gap ≠ []) :
    kit.evaluateText (text ++ (gap ++ [';'])) world bindings =
      if (kit.evaluateText text world bindings).goesOn then
        { outcome := .error (.fault .emptyOperand)
          returned := false
          setting := (kit.evaluateText text world bindings).setting }
      else kit.evaluateText text world bindings := by
  have hblanks := ReadsAs.blanks hgap
  rw [Draft.kept_ofChars hne] at hblanks
  rw [kit.evaluateText_concat h hblanks, sequence, Act.exec_bind, Statement.exec_meaning_blanks]
  · rfl
  · rw [Draft.ofChars, String.toList_ofList]
    exact hgap

/-- Blanks before its equals sign make an assignment give the value to another variable. -/
theorem ReadsAs.evaluateText_renames (h : ReadsAs false text statements)
    (hgoes : (kit.evaluateText text world bindings).goesOn = true) {a : ActionText}
    {x e b b' : List Char} (htext : a.text.toList = x ++ '=' :: e) (hx : isAssignable x = true)
    (he : '=' ∉ e) (hb : Blanks b) (hb' : Blanks b') :
    Account.Renames (String.ofList x) (String.ofList (x ++ b))
      (kit.evaluateText (text ++ (a.text.toList ++ [';'])) world bindings)
      (kit.evaluateText (text ++ (x ++ b ++ '=' :: (b' ++ e) ++ [';'])) world bindings) := by
  have hspaced : a.Respaced { alone := false, beforeSign := true } (x ++ b ++ '=' :: (b' ++ e)) :=
    .assigned htext hx he hb hb' fun _ => rfl
  obtain ⟨a', ha'⟩ := a.exists_loosened hspaced.loose hspaced.getLast?
  have hread := ReadsAs.action a'
  rw [ha'] at hread
  have hplain := Expr.ofText_assigned hx he blanks_nil blanks_nil
  rw [List.append_nil, List.nil_append, ← htext] at hplain
  have hnamed := Expr.ofText_assigned hx he hb hb'
  rw [← ha'] at hnamed
  rw [kit.evaluateText_concat h (ReadsAs.action a), kit.evaluateText_concat h hread,
    if_pos hgoes, if_pos hgoes]
  exact Account.renames_assign _ _ hplain hnamed _ _

end

/-- **Blanks between the parts of a plan.**  Take any plan of the grammar, any way to write it and
any blanks put between its parts.  With and without them the text is read to its end.  If no blanks
stand before an equals sign, then evaluating the spaced text makes the same calls, leaves the same
world and variables and has the same result; or there are blanks that stand alone, and it halts at
them after some of the same calls.  Blanks alone before a mark at the end of a plan make every plan
halt that gets there.  Blanks before the equals sign of an assignment become a part of the name, so
another variable gets the value. -/
theorem spacing_keeps_meaning (kit : Toolkit σ) (world : σ) (bindings : Variables)
    {leeway : Leeway} {trees : List Tree} {text text' : List Char}
    (h : Spaced leeway false trees text text') :
    ((Body.fresh.feed text).2 = .more ∧ (Body.fresh.feed text').2 = .more) ∧
      (leeway.beforeSign = false →
        kit.evaluateText text' world bindings = kit.evaluateText text world bindings ∨
          leeway.alone = true ∧
            (kit.evaluateText text' world bindings).outcome = .error (.fault .emptyOperand) ∧
            (kit.evaluateText text' world bindings).setting.world.2 <+:
              (kit.evaluateText text world bindings).setting.world.2) ∧
      (∀ gap, Blanks gap → gap ≠ [] →
        kit.evaluateText (text ++ (gap ++ [';'])) world bindings =
          if (kit.evaluateText text world bindings).goesOn then
            { outcome := .error (.fault .emptyOperand)
              returned := false
              setting := (kit.evaluateText text world bindings).setting }
          else kit.evaluateText text world bindings) ∧
      ∀ (a : ActionText) (x e b b' : List Char), a.text.toList = x ++ '=' :: e →
        isAssignable x = true → '=' ∉ e → Blanks b → Blanks b' →
        (kit.evaluateText text world bindings).goesOn = true →
        Account.Renames (String.ofList x) (String.ofList (x ++ b))
          (kit.evaluateText (text ++ (a.text.toList ++ [';'])) world bindings)
          (kit.evaluateText (text ++ (x ++ b ++ '=' :: (b' ++ e) ++ [';'])) world bindings) := by
  have hread := h.written.readsAs
  refine ⟨⟨hread.statements_feed.2, h.reads.statements_feed.1⟩, ?_, ?_, ?_⟩
  · intro hsign
    exact h.evaluateText_eq_or_cut kit world bindings hsign
  · intro gap hgap hne
    exact hread.evaluateText_blanks kit world bindings hgap hne
  · intro a x e b b' htext hx he hb hb' hgoes
    exact hread.evaluateText_renames kit world bindings hgoes htext hx he hb hb'

/-- Two rounds of a conditional with assignments, and an assignment behind them. -/
def countingTrees : List Tree :=
  [.block (.loop { count := 2 })
    [.block (.conditional { text := "count()>0" })
      [.action { text := "_1=count()" }, .action { text := "_2=_1" }]],
   .action { text := "_3=_2" }]

/-- One way to write them. -/
def countingText : String :=
  "2\x7b?count()>0\x7b_1=count();_2=_1\x7d\x7d_3=_2;"

/-- The same with blanks at the beginning and at the end, behind braces and marks, around the
comparator, behind the equals signs and behind what is assigned. -/
def spacedText : String :=
  "\n2\x7b ?count() > 0\x7b\n_1= count(); _2=\n_1 \x7d\x7d\n_3= _2 ;\n"

/-- The spaced text has blanks only where they do nothing. -/
theorem countingTrees_spaced :
    Spaced .strict false countingTrees countingText.toList spacedText.toList := by
  have hcondition : ConditionSpaced "count()>0".toList "count() > 0".toList :=
    ⟨["count() > 0".toList],
      .cons ⟨["count() > 0".toList],
        .cons (@ComparisonSpaced.compared "count()>0".toList "count()".toList "0".toList [] [' ']
          [' '] [] .greater rfl blanks_nil (by decide) (by decide) blanks_nil) .nil, rfl⟩ .nil, rfl⟩
  have hfirst : ActionText.Respaced .strict { text := "_1=count()" } "_1= count()".toList :=
    @ActionText.Respaced.assigned .strict _ "_1".toList "count()".toList [] [' '] rfl (by decide)
      (by decide) (by decide) (by decide) (by decide)
  have hsecond : ActionText.Respaced .strict { text := "_2=_1" } "_2=\n_1".toList :=
    @ActionText.Respaced.assigned .strict _ "_2".toList "_1".toList [] ['\n'] rfl (by decide)
      (by decide) (by decide) (by decide) (by decide)
  have hthird : ActionText.Respaced .strict { text := "_3=_2" } "_3= _2".toList :=
    @ActionText.Respaced.assigned .strict _ "_3".toList "_2".toList [] [' '] rfl (by decide)
      (by decide) (by decide) (by decide) (by decide)
  have hinside := @Spaced.last .strict [' '] _ [' '] _ (by decide) hsecond (by decide) (by decide)
  have hbody := @Spaced.action .strict true _ _ _ ['\n'] _ [] _ (by decide) hfirst blanks_nil
    (by decide) hinside
  have hconditional := @Spaced.block .strict true _ _ _ _ _ _ [' '] _ _ (by decide)
    (.conditional { text := "count()>0" } hcondition) hbody (.none blanks_nil (by decide))
  have hend := @Spaced.action .strict false _ _ _ ['\n'] _ [' '] _ (by decide) hthird (by decide)
    (by decide) (@Spaced.none .strict false ['\n'] (by decide) (by decide))
  exact @Spaced.block .strict false _ _ _ _ _ _ ['\n'] _ _ (by decide) (.loop { count := 2 })
    hconditional hend

/-- With these blanks the robot that counts does what it does without them. -/
theorem spacing_keeps_meaning_counting :
    Spaced .strict false countingTrees countingText.toList spacedText.toList ∧
      counter.evaluateText spacedText.toList 0 .empty =
        counter.evaluateText countingText.toList 0 .empty := by
  refine ⟨countingTrees_spaced, ?_⟩
  have hmeaning := (spacing_keeps_meaning counter 0 .empty countingTrees_spaced).2.1 rfl
  exact hmeaning.resolve_right fun hcut => by cases hcut.1

theorem ofText_countCall :
    Expr.ofText "count()".toList = .call { name := "count", arguments := [] } := by
  rw [Expr.ofText]
  rfl

/-- Counting logs one call. -/
theorem exec_meaning_count (n : Nat) (log : List Invocation) :
    ((Statement.action { text := "count()", named := true }).meaning recording
        (counter.logged.meaning recording)).exec { world := (n, log) } =
      (.ok { result := .ofValue (.int (n + 1)), stops := false },
        { world := (n + 1, log ++ [{ skill := counting, arguments := [] }]) }) := by
  rw [Statement.meaning, ofText_countCall]
  rfl

/-- A loop of one round that is the whole plan does what its body does, if that does not stop. -/
theorem exec_sequence_once {meant : Call → Act σ Result} {body : List Statement}
    {s s' : Setting σ} {r : Except Halt Result}
    (h : (sequence recording meant body .none).exec s = (r.map (Ending.mk · false), s'))
    (d : Draft) :
    (sequence recording meant [.block d (.loop 1) (.complete body)] .none).exec s =
      (r.map (Ending.mk · false), s') := by
  have hrounds : (rounds recording (sequence recording meant body .none) 1 .none).exec s =
      (r.map (Ending.mk · false), s') := by
    have hnote : (Act.lift (recording [Result.none.value]) : Act σ Unit).exec s = (.ok ⟨⟩, s) := rfl
    rw [rounds, Act.exec_bind, hnote]
    simp only
    rw [Act.exec_bind, h]
    cases r <;> rfl
  rw [sequence, Statement.meaning_loop]
  change (rounds recording (sequence recording meant body .none) 1 .none >>= _).exec s = _
  rw [Act.exec_bind, hrounds]
  cases r with
  | error f => rfl
  | ok r =>
      simp only [Except.map, Bool.false_eq_true, if_false, sequence]
      rfl

/-- **Blanks before a closing brace may count.**  A loop that counts once does so and ends.  With a
blank between the mark and the closing brace it halts after it has counted. -/
theorem blank_before_brace_halts :
    Spaced { alone := true, beforeSign := false } false
        [.block (.loop { count := 1 }) [.action { text := "count()" }]]
        "1\x7bcount();\x7d".toList "1\x7bcount(); \x7d".toList ∧
      counter.evaluateText "1\x7bcount();\x7d".toList 0 .empty =
        { outcome := .ok (.ofValue (.int 1))
          returned := false
          setting := { world := (1, [{ skill := counting, arguments := [] }]) } } ∧
      counter.evaluateText "1\x7bcount(); \x7d".toList 0 .empty =
        { outcome := .error (.fault .emptyOperand)
          returned := false
          setting := { world := (1, [{ skill := counting, arguments := [] }]) } } := by
  refine ⟨?_, ?_, ?_⟩
  · have hinside := @Spaced.none { alone := true, beforeSign := false } true [' '] (by decide)
      (by decide)
    have hbody := @Spaced.action _ true _ _ _ [] _ [] { text := "count()" } blanks_nil .same
      blanks_nil (by decide) hinside
    exact @Spaced.block _ false _ _ _ _ _ _ [] _ _ blanks_nil (.loop { count := 1 }) hbody
      (.none blanks_nil (by decide))
  · have hstatements : (Body.fresh.feed "1\x7bcount();\x7d".toList).1.statements =
        [.block { text := "1" } (.loop 1)
          (.complete [.action { text := "count()", named := true }])] := rfl
    have hbody : (sequence recording (counter.logged.meaning recording)
        [.action { text := "count()", named := true }] .none).exec { world := (0, []) } =
        (Except.map (Ending.mk · false) (.ok (.ofValue (.int 1))),
          { world := (1, [{ skill := counting, arguments := [] }]) }) := by
      rw [sequence, Act.exec_bind, exec_meaning_count]
      simp only [Bool.false_eq_true, if_false, sequence]
      rfl
    rw [Toolkit.evaluateText_eq, hstatements, exec_sequence_once hbody]
    rfl
  · have hstatements : (Body.fresh.feed "1\x7bcount(); \x7d".toList).1.statements =
        [.block { text := "1" } (.loop 1)
          (.complete [.action { text := "count()", named := true }, .action { text := " " }])] :=
      rfl
    have hbody : (sequence recording (counter.logged.meaning recording)
        [.action { text := "count()", named := true }, .action { text := " " }] .none).exec
          { world := (0, []) } =
        (Except.map (Ending.mk · false) (.error (.fault .emptyOperand)),
          { world := (1, [{ skill := counting, arguments := [] }]) }) := by
      rw [sequence, Act.exec_bind, exec_meaning_count]
      simp only [Bool.false_eq_true, if_false]
      rw [sequence, Act.exec_bind, Statement.exec_meaning_blanks _ _ (by decide)]
      rfl
    rw [Toolkit.evaluateText_eq, hstatements, exec_sequence_once hbody]
    rfl

end DronePilot.Plan
