import DronePilot.Proofs.Conduct
import DronePilot.Proofs.Streaming

/-!
# The first call of a plan

Before the first call of a basic skill, the values at hand come from the text alone, and no equals
sign comes to a leaf of an expression.  So whatever the text of a plan is, the first call that its
evaluation makes has no equals sign in its arguments (`first_call_equalsFree`).

What the first call is can be said where the plan begins with a call.  Operands are evaluated from
left to right, so the leftmost leaf of an expression comes first (`Expr.Begins`); if it is a call,
everything else only adds to the log.

* `OpensWith` — an evaluation that began with an empty log halted before it called anything, or its
  first call is as described.
* `Expr.Begins.opens`, `Body.WellRead.opens` — an expression that begins with a call, and a plan
  that begins with such an expression, open as the call does.
* `Body.world_run_call`, `world_runText_call` — a plan that is one call does what the call does.
-/

namespace DronePilot

open DronePilot.Text

/-! ### Values without equals signs -/

theorem Value.EqualsFree.trim {s : String} (h : (Value.text s).EqualsFree) :
    (Value.text (String.ofList (trim s.toList))).EqualsFree := by
  intro t ht hmem
  cases ht
  rw [String.toList_ofList] at hmem
  exact h s rfl (Plan.mem_of_mem_trim hmem)

theorem equalsFree_of_repeatText {s : String} (hs : '=' ∉ s.toList) {n : Int} {v : Value}
    (h : repeatText s n = .ok v) : v.EqualsFree := by
  unfold repeatText at h
  simp only at h
  split at h
  · cases h
  · split at h
    · cases h
    · split at h
      · cases h
        intro t ht
        cases ht
        exact hs
      · cases h
        intro t ht hmem
        cases ht
        rw [String.toList_join, List.mem_flatMap] at hmem
        obtain ⟨s', hs', hmem⟩ := hmem
        rw [List.eq_of_mem_replicate hs'] at hmem
        exact hs hmem

/-- An operator brings no equals sign into a value. -/
theorem Value.EqualsFree.apply {op : Operator} {a b v : Value} (ha : a.EqualsFree)
    (hb : b.EqualsFree) (h : op.apply a b = .ok v) : v.EqualsFree := by
  unfold Operator.apply at h
  split at h
  · rename_i x y _ _
    cases hnumber : Operator.onNumbers _ x y with
    | error f =>
        rw [hnumber] at h
        cases h
    | ok z =>
        rw [hnumber] at h
        cases h
        apply Value.equalsFree_of_not_text
        intro s
        cases z <;> simp [Number.toValue]
  · exact equalsFree_of_repeatText (hb _ rfl) h
  · exact equalsFree_of_repeatText (ha _ rfl) h
  · cases h

namespace Plan

open DronePilot.Skill

variable {σ α β : Type}

/-! ### What comes before the first call -/

/-- The composed skills bring no equals sign into a value: none is in their names, and none begins
the plan of one that stands among the basic skills. -/
structure Toolkit.EqualsFree (kit : Toolkit σ) : Prop where
  names : ∀ name s, kit.find? name = some (.composed s) → '=' ∉ s.name.toList
  plans : ∀ name s arguments text, kit.find? name = some (.unread s) →
    s.expand arguments = .ok text → text.head? ≠ some '='

theorem equalsFree_of_resultOfText {text : List Char} {r : Result} (htext : text.head? ≠ some '=')
    (h : resultOfText text = .ok r) : r.value.EqualsFree := by
  unfold resultOfText at h
  split at h
  · cases h
    intro t ht hmem
    cases ht
    simp only [String.toList_singleton, List.mem_singleton] at hmem
    exact htext (by rw [← hmem, List.head?_cons])
  · cases h

/-- A call is added to the log; the first one has the arguments of the call. -/
theorem Toolkit.log_after_perform {kit : Toolkit σ} {skill : BasicSkill} {arguments : List Value}
    {w : σ × List Invocation} (harguments : ∀ v ∈ arguments, w.2 = [] → v.EqualsFree) :
    w.2 <+: (kit.logged.perform skill arguments w).2.2 ∧
      (w.2 = [] → ∀ i, (kit.logged.perform skill arguments w).2.2.head? = some i →
        ∀ v ∈ i.arguments, v.EqualsFree) := by
  refine ⟨List.prefix_append _ _, ?_⟩
  intro hlog i hi
  simp only [Toolkit.logged, hlog] at hi
  cases hi
  exact fun v hv => harguments v hv hlog

/-- The log only grows; and while it is empty no value at hand has an equals sign in it, so the
first entry has none either. -/
def Toolkit.firstCallConduct (kit : Toolkit σ) (hfree : kit.EqualsFree) :
    Conduct kit.logged where
  leads w w' := w.2 <+: w'.2 ∧
    (w.2 = [] → ∀ i, w'.2.head? = some i → ∀ v ∈ i.arguments, v.EqualsFree)
  admits w v := w.2 = [] → v.EqualsFree
  halts _ _ := True
  leads_refl w := ⟨List.prefix_refl _, by intro h i hi; rw [h] at hi; cases hi⟩
  leads_trans := by
    intro u v w huv hvw
    refine ⟨huv.1.trans hvw.1, ?_⟩
    intro hu i hi
    cases hv : v.2 with
    | nil => exact hvw.2 hv i hi
    | cons j later =>
        -- The first entry does not change once there is one.
        obtain ⟨more, hmore⟩ := hvw.1
        rw [← hmore, hv] at hi
        exact huv.2 hu i (by rw [hv]; exact hi)
  halts_fault _ _ := trivial
  admits_later := by
    intro w w' v hleads hv hlog
    rw [hlog] at hleads
    exact hv (List.prefix_nil.1 hleads.1)
  admits_equalsFree _ _ hv _ := hv
  admits_trim hs hlog := (hs hlog).trim
  admits_apply ha hb h hlog := (ha hlog).apply (hb hlog) h
  admits_failure := by
    intro w name s hfind _ t ht hmem
    cases ht
    have hname := hfree.names name s hfind
    simp [hname] at hmem
  admits_unread := by
    intro w name s arguments text r hfind htext hr _
    exact equalsFree_of_resultOfText (hfree.plans name s arguments text hfind htext) hr
  performs_ok := by
    intro w w' skill arguments r harguments hperform
    have hworld : (kit.logged.perform skill arguments w).2 = w' := congrArg Prod.snd hperform
    subst hworld
    exact ⟨Toolkit.log_after_perform harguments, by simp [Toolkit.logged]⟩
  performs_error := by
    intro w w' skill arguments h harguments hperform
    have hworld : (kit.logged.perform skill arguments w).2 = w' := congrArg Prod.snd hperform
    subst hworld
    exact ⟨Toolkit.log_after_perform harguments, trivial⟩

/-- The calls that a plan makes when its text is read and evaluated. -/
def Toolkit.callsOf (kit : Toolkit σ) (world : σ) (text : String) : List Invocation :=
  (((Body.fresh.feed text.toList).1.finish.run kit.logged.call .fresh).exec
    { world := (world, []) }).2.world.2

/-- **The first call of a plan has no equals sign in its arguments**, whatever its text is. -/
theorem first_call_equalsFree (kit : Toolkit σ) (hfree : kit.EqualsFree) (world : σ)
    (text : String) {i : Invocation} (h : (kit.callsOf world text).head? = some i) :
    ∀ v ∈ i.arguments, v.EqualsFree := by
  have hkeeps := (Body.wellRead_fresh.feed text.toList).keeps_run
    (kit.firstCallConduct hfree).callsKeep .fresh (Conduct.holds_fresh (world, []))
  exact hkeeps.leads.2 rfl i h

/-! ### The first call of an evaluation -/

/-- What an evaluation with an empty log came to: it halted before it called anything, or its first
call is as `P` says. -/
inductive OpensWith (P : Invocation → Prop) :
    Except Halt α × Scope (σ × List Invocation) → Prop
  | halted {h : Halt} {s : Scope (σ × List Invocation)} (hlog : s.world.2 = []) :
      OpensWith P (.error h, s)
  | called {x : Except Halt α × Scope (σ × List Invocation)} {i : Invocation}
      (hlog : x.2.world.2.head? = some i) (hi : P i) : OpensWith P x

variable {P : Invocation → Prop}

theorem OpensWith.of_head {x : Except Halt α × Scope (σ × List Invocation)} (h : OpensWith P x)
    {i : Invocation} (hx : x.2.world.2.head? = some i) : P i := by
  cases h with
  | halted hlog =>
      rw [hlog] at hx
      cases hx
  | called hlog hi =>
      rw [hlog] at hx
      cases hx
      exact hi

theorem OpensWith.map {x : Run (σ × List Invocation) α} {s : Scope (σ × List Invocation)}
    (h : OpensWith P (x.exec s)) (f : α → β) :
    OpensWith P ((do let a ← x; pure (f a) : Run (σ × List Invocation) β).exec s) := by
  rw [Run.exec_bind]
  generalize x.exec s = outcome at h
  cases h with
  | halted hlog => exact .halted hlog
  | called hlog hi =>
      obtain ⟨outcome, s'⟩ := outcome
      cases outcome with
      | error h => exact .called hlog hi
      | ok a => exact .called hlog hi

/-- The leftmost leaf of the expression, a number that the analysis supplies apart, is the call. -/
inductive Expr.Begins (c : Call) : Expr → Prop
  | call : Expr.Begins c (.call c)
  | left {op : Operator} {left right : Expr} (h : Expr.Begins c left) :
      Expr.Begins c (.binary op left right)
  | right {op : Operator} {v : Value} {right : Expr} (h : Expr.Begins c right) :
      Expr.Begins c (.binary op (.const v) right)

theorem Expr.Begins.chain {c : Call} {op : Operator} {start : Expr} (h : start.Begins c)
    (operands : List Expr) : (Expr.chain op start operands).Begins c := by
  induction operands generalizing start with
  | nil => exact h
  | cons e rest ih => exact ih (.left h)

section

variable {kit : Toolkit σ} (hfree : kit.EqualsFree)
  {call : Call → Run (σ × List Invocation) Result} {s : Scope (σ × List Invocation)}

/-- What comes after the first call only adds to the log, if it keeps to the conduct. -/
theorem OpensWith.bind {x : Run (σ × List Invocation) α} {f : α → Run (σ × List Invocation) β}
    (hx : OpensWith P (x.exec s))
    (hf : ∀ a s', s'.world.2 ≠ [] → (kit.firstCallConduct hfree).Holds s' →
      (kit.firstCallConduct hfree).Keeps (fun _ _ => True) s'.world ((f a).exec s')) :
    OpensWith P ((x >>= f).exec s) := by
  rw [Run.exec_bind]
  generalize x.exec s = outcome at hx
  cases hx with
  | halted hlog => exact .halted hlog
  | @called _ i hlog hi =>
      obtain ⟨outcome, s'⟩ := outcome
      cases outcome with
      | error h => exact .called hlog hi
      | ok a =>
          have hsome : s'.world.2 ≠ [] := by
            intro hnil
            rw [hnil] at hlog
            cases hlog
          -- With an entry in the log every value is admitted.
          have hholds : (kit.firstCallConduct hfree).Holds s' :=
            fun _ _ _ hnil => absurd hnil hsome
          obtain ⟨more, hmore⟩ := (hf a s' hsome hholds).leads.1
          have hhead : ((f a).exec s').2.world.2.head? = some i := by
            rw [← hmore, List.head?_append, hlog, Option.some_or]
          exact .called hhead hi

variable {hfree}

/-- **An expression opens as its leftmost leaf does.** -/
theorem Expr.Begins.opens (hcall : (kit.firstCallConduct hfree).CallsKeep call) {c : Call}
    {e : Expr} (h : e.Begins c) (he : e.EqualsFree) (hc : OpensWith P ((call c).exec s)) :
    OpensWith P ((e.eval call).exec s) := by
  have hlast {x : Except Fault Value} {s : Scope (σ × List Invocation)}
      (hs : (kit.firstCallConduct hfree).Holds s) :
      (kit.firstCallConduct hfree).Keeps (fun _ _ => True) s.world
        ((do let v ← Run.lift x; pure (Result.ofValue v)).exec s) := by
    cases x with
    | error f => exact .fault f
    | ok v => exact .pure hs trivial
  induction h with
  | call => exact hc
  | left _ ih =>
      rw [Expr.eval]
      apply (ih he.1).bind hfree
      intro a s₁ _ hs₁
      apply (Expr.keeps hcall he.2 hs₁).bind
      intro b s₂ _ hs₂ _
      exact hlast hs₂
  | right _ ih =>
      rw [Expr.eval, Expr.eval, Run.exec_bind_ok (Run.exec_pure _ s)]
      apply (ih he.2).bind hfree
      intro b s₁ _ hs₁
      exact hlast hs₁

/-- **A plan opens as its first statement does**, if that begins with a call. -/
theorem Body.WellRead.opens (hcall : (kit.firstCallConduct hfree).CallsKeep call) {p : Program}
    (hp : p.WellRead) {d : Draft} {rest : List Statement}
    (hstatements : p.statements = .action d :: rest) (hword : isBlockWord d.text = false) {c : Call}
    (hbegins : (Expr.ofText d.text.toList).Begins c)
    (hc : OpensWith P ((call c).exec { s with returned := false })) :
    OpensWith P ((p.finish.run call .fresh).exec s) := by
  have hrest : ∀ t ∈ rest, t.Keeps (kit.firstCallConduct hfree) call := by
    intro t ht
    exact (hp.listed t (by rw [hstatements]; exact List.mem_cons_of_mem _ ht)).keeps hcall
  have hfirst : OpensWith P (((Statement.action d).run call .fresh).exec s) := by
    rw [Statement.exec_run_action hword rfl]
    apply (hbegins.opens hcall (Expr.equalsFree_ofText _) hc).bind hfree
    intro r s₁ _ hs₁
    exact .pure hs₁ trivial
  have hall : OpensWith P ((runAll call p.finish.statements Trail.fresh.inner .none).exec s) := by
    change OpensWith P ((runAll call p.statements [] .none).exec s)
    rw [hstatements, runAll_cons]
    apply hfirst.bind hfree
    intro x s₁ hlog hs₁
    obtain ⟨r, m⟩ := x
    cases hstops : r.replan || m.returned with
    | true =>
        simp only [hstops, if_true]
        apply (Conduct.keeps_record hs₁).bind
        intro _ s₂ _ hs₂ _
        exact .pure hs₂ trivial
    | false =>
        simp only [hstops, Bool.false_eq_true, if_false]
        have hr : (kit.firstCallConduct hfree).AdmitsResult s₁.world r :=
          fun hnil => absurd hnil hlog
        apply (keeps_runAll hrest [] hs₁ hr).bind
        intro progress s₂ _ hs₂ _
        exact .pure hs₂ trivial
  rw [Body.run]
  apply hall.bind hfree
  intro progress s₁ _ hs₁
  unfold Progress.conclude
  cases progress.stopped with
  | true => exact .pure hs₁ trivial
  | false => exact .pure hs₁ trivial

/-- A text opens as the plan that it reads as. -/
theorem opens_runText {text : List Char} (hlog : s.world.2 = [])
    (h : OpensWith P
      (((Body.fresh.feed text).1.finish.run call .fresh).exec { world := s.world })) :
    OpensWith P ((runText call text).exec s) := by
  rcases runText_cases call text with hfault | halone
  · obtain ⟨f, hfault⟩ := hfault
    rw [hfault]
    exact .halted hlog
  · rw [halone, Run.exec_isolated]
    have hresult := h.map Prod.fst
    generalize Run.exec _ { world := s.world } = outcome at hresult
    cases hresult with
    | halted hlog => exact .halted hlog
    | called hlog hi => exact .called hlog hi

end

/-! ### Plans that are one call -/

section

variable {call : Call → Run σ Result} {d : Draft} {c : Call}

/-- A plan of one statement that is a call leaves the world as the call does. -/
theorem Body.world_run_call {p : Program} (hstatements : p.statements = [.action d])
    (hword : isBlockWord d.text = false) (hexpr : Expr.ofText d.text.toList = .call c)
    (s : Scope σ) :
    ((p.finish.run call .fresh).exec s).2.world =
      ((call c).exec { s with returned := false }).2.world := by
  have haction : (((Statement.action d).run call .fresh).exec s).2.world =
      ((call c).exec { s with returned := false }).2.world := by
    rw [Statement.exec_run_action hword hexpr, Expr.eval]
    exact Run.world_exec_bind (fun _ _ => rfl) _
  have hall : ((runAll call p.finish.statements Trail.fresh.inner .none).exec s).2.world =
      (((Statement.action d).run call .fresh).exec s).2.world := by
    change ((runAll call p.statements [] .none).exec s).2.world = _
    rw [hstatements, runAll_cons]
    apply Run.world_exec_bind
    intro x s₁
    obtain ⟨r, m⟩ := x
    cases hstops : r.replan || m.returned with
    | true =>
        simp only [hstops, if_true]
        exact (Run.world_exec_bind (fun _ _ => rfl) s₁).trans (Run.world_exec_lift _ s₁)
    | false =>
        simp only [hstops]
        rfl
  rw [Body.run, ← haction, ← hall]
  apply Run.world_exec_bind
  intro progress s₁
  unfold Progress.conclude
  cases progress.stopped <;> rfl

/-- So does a text that reads as such a plan. -/
theorem world_runText_call {text : List Char} {p : Program}
    (hread : Body.fresh.feed text = (p, .more)) (hstatements : p.statements = [.action d])
    (hword : isBlockWord d.text = false) (hexpr : Expr.ofText d.text.toList = .call c)
    (s : Scope σ) :
    ((runText call text).exec s).2.world = ((call c).exec { world := s.world }).2.world := by
  unfold runText
  rw [hread]
  simp only
  rw [Run.exec_isolated]
  refine (Run.world_exec_bind (fun _ _ => rfl) _).trans ?_
  exact Body.world_run_call hstatements hword hexpr { world := s.world }

end

end Plan

end DronePilot
