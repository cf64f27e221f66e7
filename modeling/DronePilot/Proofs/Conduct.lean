import DronePilot.Plan.Executor
import DronePilot.Proofs.Evaluation
import DronePilot.Proofs.Leaves
import DronePilot.Proofs.Wholeness

/-!
# What evaluation keeps to

An evaluation touches the world only through the basic skills, and the values at hand come from the
text, from the skills and from a few operations on values.  So whatever holds of each of these holds
of every evaluation.  A *conduct* collects what has to be said of them: how the world may go on,
which values may be at hand in a state of the world, and for which reasons an evaluation may halt
there.

* `Conduct.Keeps.bind` — one computation after another keeps to a conduct if both do.
* `Expr.keeps`, `Condition.keeps`, `Statement.Whole.keeps` — so do expressions, conditions and the
  statements of a plan, if the calls in them do.
* `Conduct.callsKeepWithin` — and so do the calls, through all composed skills.
* `Body.WellRead.keeps_run`, `Statement.Startable.keeps_start` — hence every plan that was read,
  when it is evaluated and when it is executed.
-/

namespace DronePilot.Plan

open DronePilot.Skill DronePilot.Text

variable {σ α β : Type}

/-- A conduct of the evaluations with a toolkit, with what it asks of the skills and of values. -/
structure Conduct (kit : Toolkit σ) where
  /-- The world may go from the first state to the second. -/
  leads : σ → σ → Prop
  /-- The value may be at hand in this state of the world. -/
  admits : σ → Value → Prop
  /-- An evaluation may halt in this state of the world for this reason. -/
  halts : σ → Halt → Prop
  leads_refl (w : σ) : leads w w
  leads_trans {u v w : σ} : leads u v → leads v w → leads u w
  halts_fault (w : σ) (f : Fault) : halts w (.fault f)
  admits_later {w w' : σ} {v : Value} : leads w w' → admits w v → admits w' v
  admits_equalsFree (w : σ) {v : Value} : v.EqualsFree → admits w v
  admits_trim {w : σ} {s : String} :
    admits w (.text s) → admits w (.text (String.ofList (trim s.toList)))
  admits_apply {w : σ} {op : Operator} {a b v : Value} :
    admits w a → admits w b → op.apply a b = .ok v → admits w v
  admits_failure (w : σ) {name : String} {s : ComposedSkill} :
    kit.find? name = some (.composed s) →
      admits w (.text ("High-level skill " ++ s.name ++ " failed"))
  admits_unread (w : σ) {name : String} {s : ComposedSkill} {arguments : List Value}
    {text : List Char} {r : Result} :
    kit.find? name = some (.unread s) → s.expand arguments = .ok text →
      resultOfText text = .ok r → admits w r.value
  performs_ok {w w' : σ} {skill : BasicSkill} {arguments : List Value} {r : Result} :
    (∀ v ∈ arguments, admits w v) → kit.perform skill arguments w = (.ok r, w') →
      leads w w' ∧ admits w' r.value
  performs_error {w w' : σ} {skill : BasicSkill} {arguments : List Value} {h : Halt} :
    (∀ v ∈ arguments, admits w v) → kit.perform skill arguments w = (.error h, w') →
      leads w w' ∧ halts w' h

/-- A conduct that says nothing about values. -/
def Conduct.ofWorld (kit : Toolkit σ) (leads : σ → σ → Prop) (halts : σ → Halt → Prop)
    (refl : ∀ w, leads w w) (trans : ∀ {u v w}, leads u v → leads v w → leads u w)
    (fault : ∀ w f, halts w (.fault f))
    (perform : ∀ skill arguments w, leads w (kit.perform skill arguments w).2 ∧
      ∀ h, (kit.perform skill arguments w).1 = .error h →
        halts (kit.perform skill arguments w).2 h) : Conduct kit where
  leads := leads
  admits _ _ := True
  halts := halts
  leads_refl := refl
  leads_trans := trans
  halts_fault := fault
  admits_later _ _ := trivial
  admits_equalsFree _ _ _ := trivial
  admits_trim _ := trivial
  admits_apply _ _ _ := trivial
  admits_failure _ _ _ _ := trivial
  admits_unread _ _ _ _ _ _ _ _ _ := trivial
  performs_ok := by
    intro w w' skill arguments r _ hperform
    have hlaw := (perform skill arguments w).1
    rw [hperform] at hlaw
    exact ⟨hlaw, trivial⟩
  performs_error := by
    intro w w' skill arguments h _ hperform
    have hlaw := perform skill arguments w
    rw [hperform] at hlaw
    exact ⟨hlaw.1, hlaw.2 h rfl⟩

namespace Conduct

variable {kit : Toolkit σ} (K : Conduct kit)

/-- The values of all variables are admitted. -/
def Holds (s : Scope σ) : Prop :=
  ∀ name v, s.bindings.find? name = some v → K.admits s.world v

/-- What a computation from the state `w` came to keeps to the conduct: the world went where it may,
and either the value is as `post` says and the variables are admitted, or the reason to halt is. -/
inductive Keeps (post : σ → α → Prop) (w : σ) : Except Halt α × Scope σ → Prop
  | value {a : α} {s : Scope σ} (hleads : K.leads w s.world) (hholds : K.Holds s)
      (hpost : post s.world a) : Keeps post w (.ok a, s)
  | halt {h : Halt} {s : Scope σ} (hleads : K.leads w s.world) (hhalts : K.halts s.world h) :
      Keeps post w (.error h, s)

/-- The value of a result is admitted. -/
def AdmitsResult (w : σ) (r : Result) : Prop :=
  K.admits w r.value

variable {K}

/-- Without variables there is nothing that could break the rules. -/
theorem holds_fresh (w : σ) : K.Holds { world := w } := by
  intro name v h
  cases h

/-- Variables that keep to the rules still do in a world that comes later. -/
theorem Holds.later {s : Scope σ} (h : K.Holds s) {w : σ} (hleads : K.leads s.world w) :
    K.Holds { s with world := w } := by
  intro name v hfind
  exact K.admits_later hleads (h name v hfind)

/-- So they do when one of them is given a value that is admitted. -/
theorem Holds.insert {s : Scope σ} (h : K.Holds s) (name : String) {v : Value}
    (hv : K.admits s.world v) : K.Holds { s with bindings := s.bindings.insert name v } := by
  intro other v' hfind
  by_cases hname : other = name
  · subst hname
    have heq : some v = some v' := by
      rw [← Table.find?_insert_self s.bindings other v]
      exact hfind
    cases heq
    exact hv
  · have hold : s.bindings.find? other = some v' := by
      rw [← Table.find?_insert_of_ne s.bindings v hname]
      exact hfind
    exact h other v' hold

/-- A computation that changes nothing and gives an admissible value. -/
theorem Keeps.pure {post : σ → α → Prop} {s : Scope σ} {a : α} (hs : K.Holds s)
    (ha : post s.world a) : K.Keeps post s.world (.ok a, s) :=
  .value (K.leads_refl _) hs ha

/-- A fault keeps to the rules: it leaves the scope as it is. -/
theorem Keeps.fault {post : σ → α → Prop} {s : Scope σ} (f : Fault) :
    K.Keeps post s.world (.error (.fault f), s) :=
  .halt (K.leads_refl _) (K.halts_fault _ f)

/-- **One computation after another.** -/
theorem Keeps.bind {post : σ → α → Prop} {post' : σ → β → Prop} {x : Run σ α} {f : α → Run σ β}
    {s : Scope σ} (hx : K.Keeps post s.world (x.exec s))
    (hf : ∀ a s', K.leads s.world s'.world → K.Holds s' → post s'.world a →
      K.Keeps post' s'.world ((f a).exec s')) :
    K.Keeps post' s.world ((x >>= f).exec s) := by
  rw [Run.exec_bind]
  generalize x.exec s = outcome at hx
  cases hx with
  | @value a s' hleads hholds hpost =>
      have hnext := hf a s' hleads hholds hpost
      simp only
      generalize (f a).exec s' = outcome at hnext
      cases hnext with
      | value hleads' hholds' hpost' =>
          exact .value (K.leads_trans hleads hleads') hholds' hpost'
      | halt hleads' hhalts => exact .halt (K.leads_trans hleads hleads') hhalts
  | halt hleads hhalts => exact .halt hleads hhalts

/-- What keeps to the rules leads on from the world it began in. -/
theorem Keeps.leads {post : σ → α → Prop} {w : σ} {x : Except Halt α × Scope σ}
    (h : K.Keeps post w x) : K.leads w x.2.world := by
  cases h with
  | value hleads _ _ => exact hleads
  | halt hleads _ => exact hleads

/-- What keeps to the rules halts only for a reason that they allow in the world left behind. -/
theorem Keeps.halts {post : σ → α → Prop} {w : σ} {x : Except Halt α × Scope σ}
    (h : K.Keeps post w x) {reason : Halt} (hx : x.1 = .error reason) :
    K.halts x.2.world reason := by
  cases h with
  | value _ _ _ => cases hx
  | halt _ hhalts =>
      cases hx
      exact hhalts

/-- A pure computation keeps to the rules if what it gives is as wanted. -/
theorem keeps_lift {post : σ → α → Prop} {s : Scope σ} (hs : K.Holds s) {x : Except Fault α}
    (hx : ∀ a, x = .ok a → post s.world a) : K.Keeps post s.world ((Run.lift x).exec s) := by
  cases x with
  | ok a => exact .pure hs (hx a rfl)
  | error f => exact .fault f

/-- Writing values down keeps to the rules: it either does nothing or fails. -/
theorem keeps_record {values : List Value} {s : Scope σ} (hs : K.Holds s) :
    K.Keeps (fun _ _ => True) s.world ((Run.record values).exec s) :=
  keeps_lift hs fun _ _ => trivial

/-! ### Arguments and calls -/

/-- An argument without an equals sign has an admitted value. -/
theorem keeps_resolve {a : Argument} (ha : ∀ t, a = .text t → '=' ∉ t.toList) {s : Scope σ}
    (hs : K.Holds s) : K.Keeps K.admits s.world ((a.resolve : Run σ Value).exec s) := by
  rw [Argument.exec_resolve]
  apply keeps_lift hs
  intro v hv
  cases a with
  | text t =>
      cases hv
      apply K.admits_equalsFree
      intro t' ht'
      cases ht'
      exact ha t rfl
  | «variable» name =>
      simp only [Argument.valueIn] at hv
      split at hv
      · rename_i v' hfind
        cases hv
        exact hs name _ hfind
      · cases hv

/-- So have all arguments of a call. -/
theorem keeps_arguments {arguments : List Argument}
    (harguments : ∀ t, .text t ∈ arguments → '=' ∉ t.toList) {s : Scope σ} (hs : K.Holds s) :
    K.Keeps (fun w vs => ∀ v ∈ vs, K.admits w v) s.world
      ((arguments.mapM Argument.resolve : Run σ (List Value)).exec s) := by
  induction arguments generalizing s with
  | nil => exact .pure hs (by simp)
  | cons a rest ih =>
      rw [List.mapM_cons]
      have ha : ∀ t, a = .text t → '=' ∉ t.toList := by
        intro t ht
        exact harguments t (ht ▸ List.mem_cons_self)
      apply (keeps_resolve ha hs).bind
      intro v s₁ _ hs₁ hv
      apply (ih (fun t ht => harguments t (List.mem_cons_of_mem _ ht)) hs₁).bind
      intro vs s₂ hleads hs₂ hvs
      exact .pure hs₂ (List.forall_mem_cons.2 ⟨K.admits_later hleads hv, hvs⟩)

/-- Reading an argument as a parameter wants it gives an admitted value. -/
theorem admits_readArgument {w : σ} {p : Parameter} {position : Nat} {v v' : Value}
    (hv : K.admits w v) (h : p.readArgument false position v = .ok v') : K.admits w v' := by
  cases v with
  | text s =>
      simp only [Parameter.readArgument, Bool.false_and, Bool.false_eq_true, if_false] at h
      split at h
      · rename_i v'' hread
        cases h
        unfold ParameterKind.read at hread
        split at hread
        · split at hread
          · cases hread
            exact K.admits_equalsFree w (Value.equalsFree_of_not_text (by simp))
          · cases hread
          · cases hread
        · split at hread
          · cases hread
            exact K.admits_equalsFree w (Value.equalsFree_of_not_text (by simp))
          · cases hread
        · cases hread
          exact K.admits_trim hv
        · cases hread
          exact K.admits_equalsFree w (Value.equalsFree_of_not_text (by simp))
      · cases h
  | nothing => cases h; exact hv
  | bool b => cases h; exact hv
  | int n => cases h; exact hv
  | float x => cases h; exact hv

/-- So does reading a list of arguments from any position on. -/
theorem admits_readArgumentsFrom {w : σ} {parameters : List Parameter} {position : Nat}
    {arguments values : List Value} (harguments : ∀ v ∈ arguments, K.admits w v)
    (h : readArgumentsFrom false position parameters arguments = .ok values) :
    ∀ v ∈ values, K.admits w v := by
  induction parameters generalizing position arguments values with
  | nil =>
      cases h
      simp
  | cons p ps ih =>
      cases arguments with
      | nil =>
          cases h
          simp
      | cons v vs =>
          obtain ⟨hv, hvs⟩ := List.forall_mem_cons.1 harguments
          rw [readArgumentsFrom] at h
          cases hfirst : p.readArgument false position v with
          | error f =>
              rw [hfirst] at h
              cases h
          | ok first =>
              cases hrest : readArgumentsFrom false (position + 1) ps vs with
              | error f =>
                  rw [hfirst, hrest] at h
                  cases h
              | ok rest =>
                  rw [hfirst, hrest] at h
                  cases h
                  exact List.forall_mem_cons.2 ⟨admits_readArgument hv hfirst, ih hvs hrest⟩

/-- The arguments as a basic skill reads them are admitted. -/
theorem admits_arguments {w : σ} {skill : BasicSkill} {arguments values : List Value}
    (harguments : ∀ v ∈ arguments, K.admits w v) (h : skill.arguments arguments = .ok values) :
    ∀ v ∈ values, K.admits w v := by
  unfold BasicSkill.arguments readArguments at h
  split at h
  · split at h
    · cases h
    · exact admits_readArgumentsFrom harguments h
  · rename_i v _
    cases hshown : v.written <;> rw [hshown] at h <;> cases h

/-- Reading the arguments of a basic skill keeps to the rules. -/
theorem keeps_readArguments {skill : BasicSkill} {arguments : List Value} {s : Scope σ}
    (hs : K.Holds s) (harguments : ∀ v ∈ arguments, K.admits s.world v) :
    K.Keeps (fun w vs => ∀ v ∈ vs, K.admits w v) s.world
      ((Run.lift (skill.arguments arguments)).exec s) :=
  keeps_lift hs fun _ hvalues => admits_arguments harguments hvalues

/-- A conversion gives an admitted value. -/
theorem admits_convert {w : σ} {kind : ParameterKind} {arguments : List Value} {v : Value}
    (harguments : ∀ v ∈ arguments, K.admits w v) (h : convert kind arguments = .ok v) :
    K.admits w v := by
  have hmap {γ : Type} {x : Except Fault γ} {f : γ → Value} (hf : ∀ a t, f a ≠ .text t)
      (h : f <$> x = .ok v) : K.admits w v := by
    cases x with
    | error e => cases h
    | ok a =>
        cases h
        exact K.admits_equalsFree w (Value.equalsFree_of_not_text (hf a))
  unfold convert at h
  split at h
  · cases h
  · unfold convertWhole at h
    split at h
    · exact hmap (by simp) h
    · exact hmap (by simp) h
  · exact hmap (by simp) h
  · cases h
    exact harguments _ List.mem_cons_self

/-- Running a basic skill keeps to the rules, since the rules say so of every skill. -/
theorem keeps_perform {skill : BasicSkill} {arguments : List Value} {s : Scope σ}
    (hs : K.Holds s) (harguments : ∀ v ∈ arguments, K.admits s.world v) :
    K.Keeps K.AdmitsResult s.world ((Run.perform kit skill arguments).exec s) := by
  rw [Run.exec_perform]
  cases hperform : kit.perform skill arguments s.world with
  | mk answer world =>
      cases answer with
      | ok r =>
          obtain ⟨hleads, hadmits⟩ := K.performs_ok harguments hperform
          exact .value hleads (hs.later hleads) hadmits
      | error h =>
          obtain ⟨hleads, hhalts⟩ := K.performs_error harguments hperform
          exact .halt hleads hhalts

/-! ### Expressions and conditions -/

variable (K) in
/-- Calls keep to the conduct, if no equals sign stands in their arguments. -/
def CallsKeep (call : Call → Run σ Result) : Prop :=
  ∀ c s, K.Holds s → (∀ t, .text t ∈ c.arguments → '=' ∉ t.toList) →
    K.Keeps K.AdmitsResult s.world ((call c).exec s)

end Conduct

section

variable {kit : Toolkit σ} {K : Conduct kit} {call : Call → Run σ Result}

/-- Evaluating an expression keeps to the rules if its calls do. -/
theorem Expr.keeps (hcall : K.CallsKeep call) {e : Expr} (he : e.EqualsFree) {s : Scope σ}
    (hs : K.Holds s) : K.Keeps K.AdmitsResult s.world ((e.eval call).exec s) := by
  induction e generalizing s with
  | const v => exact .pure hs (K.admits_equalsFree _ he)
  | give e ih =>
      rw [Expr.eval, Run.exec_bind_ok (Run.exec_setReturned true s)]
      have hraised : K.Holds { s with returned := true } := hs
      apply (ih he hraised).bind
      intro r s₁ _ hs₁ hr
      exact .pure hs₁ hr
  | assign name e ih =>
      rw [Expr.eval]
      apply (ih he hs).bind
      intro r s₁ _ hs₁ hr
      rw [Run.exec_bind_ok (Run.exec_assign name r.value s₁)]
      exact .value (K.leads_refl _) (hs₁.insert name hr) hr
  | ambiguous => exact .fault _
  | binary op left right ihleft ihright =>
      rw [Expr.eval]
      apply (ihleft he.1 hs).bind
      intro a s₁ _ hs₁ ha
      apply (ihright he.2 hs₁).bind
      intro b s₂ hleads hs₂ hb
      have hlift : K.Keeps K.admits s₂.world
          ((Run.lift (op.apply a.value b.value)).exec s₂) := by
        apply Conduct.keeps_lift hs₂
        intro v hv
        exact K.admits_apply (K.admits_later hleads ha) hb hv
      apply hlift.bind
      intro v s₃ _ hs₃ hv
      exact .pure hs₃ hv
  | empty => exact .fault _
  | «variable» name =>
      have hname : ∀ t, Argument.variable name = .text t → '=' ∉ t.toList := by simp
      rw [Expr.eval]
      apply (Conduct.keeps_resolve hname hs).bind
      intro v s₁ _ hs₁ hv
      exact .pure hs₁ hv
  | call c => exact hcall c s hs he
  | literal t =>
      have hlift : K.Keeps K.admits s.world ((Run.lift (Plan.literal t)).exec s) := by
        apply Conduct.keeps_lift hs
        intro v hv
        exact K.admits_equalsFree _ (equalsFree_of_literal he hv)
      rw [Expr.eval]
      apply hlift.bind
      intro v s₁ _ hs₁ hv
      exact .pure hs₁ hv

/-- A verdict that is a result is one with an admitted value. -/
def Conduct.AdmitsVerdict (K : Conduct kit) (w : σ) (v : Verdict) : Prop :=
  ∀ r, v = .replan r → K.AdmitsResult w r

theorem Conduct.admitsVerdict_holds (w : σ) (b : Bool) : K.AdmitsVerdict w (.holds b) := by
  intro r hr
  cases hr

/-- A verdict that asks for a new plan is admitted with its result. -/
theorem Conduct.admitsVerdict_replan {w : σ} {r : Result} (h : K.AdmitsResult w r) :
    K.AdmitsVerdict w (.replan r) := by
  intro r' hr'
  cases hr'
  exact h

/-- Evaluating a condition keeps to the rules if its calls do. -/
theorem Condition.keeps (hcall : K.CallsKeep call) {c : Condition} (hc : c.EqualsFree)
    {s : Scope σ} (hs : K.Holds s) :
    K.Keeps K.AdmitsVerdict s.world ((c.eval call).exec s) := by
  induction c generalizing s with
  | both left right ihleft ihright =>
      rw [Condition.eval]
      apply (ihleft hc.1 hs).bind
      intro v s₁ _ hs₁ hv
      cases v with
      | replan r => exact .pure hs₁ hv
      | holds a =>
          apply (ihright hc.2 hs₁).bind
          intro v s₂ _ hs₂ hv
          cases v with
          | replan r => exact .pure hs₂ hv
          | holds b => exact .pure hs₂ (Conduct.admitsVerdict_holds _ _)
  | either left right ihleft ihright =>
      rw [Condition.eval]
      apply (ihleft hc.1 hs).bind
      intro v s₁ _ hs₁ hv
      cases v with
      | replan r => exact .pure hs₁ hv
      | holds a =>
          cases a with
          | true => exact .pure hs₁ (Conduct.admitsVerdict_holds _ _)
          | false => exact ihright hc.2 hs₁
  | compare left comparator right =>
      rw [Condition.eval]
      apply (Expr.keeps hcall hc.1 hs).bind
      intro a s₁ _ hs₁ ha
      cases hleft : a.replan with
      | true => exact .pure hs₁ (Conduct.admitsVerdict_replan ha)
      | false =>
          simp only [Bool.false_eq_true, if_false]
          apply (Expr.keeps hcall hc.2 hs₁).bind
          intro b s₂ _ hs₂ hb
          cases hright : b.replan with
          | true => exact .pure hs₂ (Conduct.admitsVerdict_replan hb)
          | false =>
              simp only [Bool.false_eq_true, if_false]
              apply (Conduct.keeps_record hs₂).bind
              intro _ s₃ _ hs₃ _
              have hlift : K.Keeps (fun _ _ => True) s₃.world
                  ((Run.lift (comparator.holds a.value b.value)).exec s₃) :=
                Conduct.keeps_lift hs₃ fun _ _ => trivial
              apply hlift.bind
              intro holds s₄ _ hs₄ _
              exact .pure hs₄ (Conduct.admitsVerdict_holds _ _)
  | malformed => exact .fault _

/-! ### Statements and plans -/

/-- Evaluating the statement keeps to the conduct, whatever its mark. -/
def Statement.Keeps (K : Conduct kit) (call : Call → Run σ Result) (t : Statement) : Prop :=
  ∀ (m : Mark) (s : Scope σ), K.Holds s →
    K.Keeps (fun w x => K.AdmitsResult w x.1) s.world ((t.run call m).exec s)

theorem Conduct.admitsResult_none (w : σ) : K.AdmitsResult w .none :=
  K.admits_equalsFree w (Value.equalsFree_of_not_text (by simp [Result.none]))

/-- Statements in order keep to the rules if each of them does. -/
theorem keeps_runAll {statements : List Statement}
    (hstatements : ∀ t ∈ statements, t.Keeps K call) (marks : List Mark) {last : Result}
    {s : Scope σ} (hs : K.Holds s) (hlast : K.AdmitsResult s.world last) :
    K.Keeps (fun w p => K.AdmitsResult w p.result) s.world
      ((runAll call statements marks last).exec s) := by
  induction statements generalizing marks last s with
  | nil =>
      rw [runAll_nil]
      exact .pure hs hlast
  | cons t rest ih =>
      obtain ⟨ht, hrest⟩ := List.forall_mem_cons.1 hstatements
      rw [runAll_cons]
      apply (ht _ s hs).bind
      intro x s₁ _ hs₁ hr
      obtain ⟨r, m⟩ := x
      cases hstops : r.replan || m.returned with
      | true =>
          simp only [hstops, if_true]
          apply (Conduct.keeps_record hs₁).bind
          intro _ s₂ hleads hs₂ _
          exact .pure hs₂ (K.admits_later hleads hr)
      | false =>
          simp only [hstops, Bool.false_eq_true, if_false]
          apply (ih hrest marks.tail hs₁ hr).bind
          intro p s₂ _ hs₂ hp
          exact .pure hs₂ hp

/-- A finished body is not waited for. -/
theorem Body.keeps_run {body : Program} (hfinished : body.finished = true)
    (hstatements : ∀ t ∈ body.statements, t.Keeps K call) (trail : Trail Mark) {s : Scope σ}
    (hs : K.Holds s) :
    K.Keeps (fun w x => K.AdmitsResult w x.1) s.world ((body.run call trail).exec s) := by
  rw [Body.run]
  apply (keeps_runAll hstatements trail.inner hs (Conduct.admitsResult_none _)).bind
  intro p s₁ _ hs₁ hp
  unfold Progress.conclude
  cases hstopped : p.stopped with
  | true =>
      simp only [if_true]
      exact .pure hs₁ hp
  | false =>
      simp only [hfinished, Bool.false_eq_true, if_false, if_true]
      exact .pure hs₁ hp

/-- The rounds of a loop keep to the rules if one round does, from any trail. -/
theorem keeps_repeatBody {once : Trail Mark → Run σ (Result × Trail Mark)}
    (honce : ∀ (trail : Trail Mark) (s : Scope σ), K.Holds s →
      K.Keeps (fun w x => K.AdmitsResult w x.1) s.world ((once trail).exec s))
    (n : Nat) {last : Result} (trail : Trail Mark) {s : Scope σ} (hs : K.Holds s)
    (hlast : K.AdmitsResult s.world last) :
    K.Keeps (fun w x => K.AdmitsResult w x.1) s.world
      ((repeatBody once n last trail).exec s) := by
  induction n generalizing last trail s with
  | zero => exact .pure hs hlast
  | succ n ih =>
      rw [repeatBody]
      apply (Conduct.keeps_record hs).bind
      intro _ s₁ _ hs₁ _
      apply (honce trail s₁ hs₁).bind
      intro x s₂ _ hs₂ hr
      obtain ⟨r, t⟩ := x
      cases hstops : r.replan || t.returned with
      | true =>
          simp only [hstops, if_true]
          exact .pure hs₂ hr
      | false =>
          simp only [hstops, Bool.false_eq_true, if_false]
          exact ih t hs₂ hr

/-- **A statement that was read to its end keeps to the conduct.**  The induction is on the nesting
of blocks; nothing in a whole statement is waited for. -/
theorem Statement.Whole.keeps (hcall : K.CallsKeep call) {t : Statement} (h : t.Whole) :
    t.Keeps K call := by
  induction h with
  | action d =>
      intro m s hs
      cases hword : isBlockWord d.text with
      | true =>
          cases m with
          | mk returned trail =>
              simp only [Statement.run, hword, if_true]
              exact .fault _
      | false =>
          rw [Statement.exec_run_action hword rfl]
          have hlowered : K.Holds { s with returned := false } := hs
          apply (Expr.keeps hcall (Expr.equalsFree_ofText _) hlowered).bind
          intro r s₁ _ hs₁ hr
          exact .pure hs₁ hr
  | @block d head body hlisted hfinished ih =>
      intro m s hs
      cases head with
      | conditional =>
          rw [Statement.run_conditional]
          apply (Condition.keeps hcall (Condition.equalsFree_ofText _) hs).bind
          intro v s₁ _ hs₁ hv
          cases v with
          | replan r => exact .pure hs₁ (hv r rfl)
          | holds b =>
              cases b with
              | false => exact .pure hs₁ (Conduct.admitsResult_none _)
              | true =>
                  apply (Body.keeps_run hfinished ih m.body hs₁).bind
                  intro x s₂ _ hs₂ hr
                  exact .pure hs₂ hr
      | loop n =>
          rw [Statement.run_loop]
          have honce (trail : Trail Mark) (s : Scope σ) (hs : K.Holds s) :=
            Body.keeps_run hfinished ih trail hs
          apply (keeps_repeatBody honce n.toNat m.body hs (Conduct.admitsResult_none _)).bind
          intro x s₁ _ hs₁ hr
          exact .pure hs₁ hr

/-- **A plan that was read keeps to the conduct**, once its text is known to be complete. -/
theorem Body.WellRead.keeps_run (hcall : K.CallsKeep call) {p : Program} (h : p.WellRead)
    (trail : Trail Mark) {s : Scope σ} (hs : K.Holds s) :
    K.Keeps (fun w x => K.AdmitsResult w x.1) s.world ((p.finish.run call trail).exec s) := by
  have hfinished : p.finish.finished = true := rfl
  exact Body.keeps_run hfinished (fun t ht => (h.listed t ht).keeps hcall) trail hs

/-- The result that a statement has come to so far is admitted. -/
def Conduct.AdmitsStage (K : Conduct kit) (w : σ) : Stage → Prop
  | .done r _ => K.AdmitsResult w r
  | .pending _ last _ => K.AdmitsResult w last

/-- Going through a body and waiting at its end keeps to the conduct: to wait in the executor is not
to halt. -/
theorem Body.keeps_proceed {body : Program} (hstatements : ∀ t ∈ body.statements, t.Keeps K call)
    (rounds : Nat) {last : Result} (trail : Trail Mark) {s : Scope σ} (hs : K.Holds s)
    (hlast : K.AdmitsResult s.world last) :
    K.Keeps K.AdmitsStage s.world ((body.proceed call rounds last trail).exec s) := by
  rw [Body.proceed]
  have hleft : ∀ t ∈ body.statements.drop trail.inner.length, t.Keeps K call := by
    intro t ht
    exact hstatements t (List.mem_of_mem_drop ht)
  apply (keeps_runAll hleft [] hs hlast).bind
  intro p s₁ _ hs₁ hp
  by_cases hstopped : p.stopped = true
  · simp only [hstopped, if_true]
    exact .pure hs₁ hp
  · simp only [hstopped, Bool.false_eq_true, if_false]
    by_cases hfinished : body.finished = true
    · simp only [hfinished, Bool.not_true, Bool.false_eq_true, if_false]
      have honce (trail : Trail Mark) (s : Scope σ) (hs : K.Holds s) :=
        Body.keeps_run hfinished hstatements trail hs
      apply (keeps_repeatBody honce (rounds - 1) _ hs₁ hp).bind
      intro x s₂ _ hs₂ hr
      exact .pure hs₂ hr
    · simp only [hfinished, Bool.not_false, if_true]
      exact .pure hs₁ hp

/-- A statement that can be started: an action, or a block in which all that is listed is whole. -/
inductive Statement.Startable : Statement → Prop
  | action (d : Draft) : Statement.Startable (.action d)
  | block {d : Draft} {head : Head} {body : Program} (h : ∀ s ∈ body.statements, s.Whole) :
      Statement.Startable (.block d head body)

/-- A whole statement can be started. -/
theorem Statement.Whole.startable {t : Statement} (h : t.Whole) : t.Startable := by
  cases h with
  | action d => exact .action d
  | block hlisted _ => exact .block hlisted

/-- So can an open block that is still being read. -/
theorem Statement.UnderWay.startable {t : Statement} (h : t.UnderWay)
    (hopen : t.isOpenBlock = true) : t.Startable := by
  cases h with
  | block hlisted _ _ => exact .block hlisted
  | code d => cases hopen
  | condition d => cases hopen
  | count d => cases hopen

/-- **Starting a statement keeps to the conduct.** -/
theorem Statement.Startable.keeps_start (hcall : K.CallsKeep call) {t : Statement}
    (h : t.Startable) {s : Scope σ} (hs : K.Holds s) :
    K.Keeps K.AdmitsStage s.world ((t.start call).exec s) := by
  cases h with
  | action d =>
      rw [Statement.start]
      · apply ((Statement.Whole.action d).keeps hcall .fresh s hs).bind
        intro x s₁ _ hs₁ hr
        exact .pure hs₁ hr
      · intro d' body hblock
        cases hblock
      · intro d' n body hblock
        cases hblock
  | @block d head body hlisted =>
      have hstatements : ∀ t ∈ body.statements, t.Keeps K call :=
        fun t ht => (hlisted t ht).keeps hcall
      cases head with
      | conditional =>
          rw [Statement.start]
          apply (Condition.keeps hcall (Condition.equalsFree_ofText _) hs).bind
          intro v s₁ _ hs₁ hv
          cases v with
          | replan r => exact .pure hs₁ (hv r rfl)
          | holds b =>
              cases b with
              | false => exact .pure hs₁ (Conduct.admitsResult_none _)
              | true =>
                  exact Body.keeps_proceed hstatements 1 .fresh hs₁ (Conduct.admitsResult_none _)
      | loop n =>
          rw [Statement.start]
          split
          · exact .pure hs (Conduct.admitsResult_none _)
          · exact Body.keeps_proceed hstatements n.toNat .fresh hs (Conduct.admitsResult_none _)

/-- A text that is evaluated as a plan of its own keeps to the rules if its calls do. -/
theorem keeps_runText (hcall : K.CallsKeep call) (text : List Char) {s : Scope σ}
    (hs : K.Holds s) : K.Keeps K.AdmitsResult s.world ((runText call text).exec s) := by
  rcases runText_cases call text with hfault | halone
  · obtain ⟨f, hfault⟩ := hfault
    rw [hfault]
    exact .fault f
  · rw [halone, Run.exec_isolated]
    have hrun : K.Keeps K.AdmitsResult s.world
        ((do let x ← (Body.fresh.feed text).1.finish.run call .fresh; pure x.1).exec
          { world := s.world }) := by
      have hfresh : K.Holds { world := s.world } := Conduct.holds_fresh s.world
      apply ((Body.wellRead_fresh.feed text).keeps_run hcall .fresh hfresh).bind
      intro x s₁ _ hs₁ hr
      exact .pure hs₁ hr
    generalize Run.exec _ { world := s.world } = outcome at hrun
    -- The variables are those of the caller again, in the world as the plan left it.
    cases hrun with
    | value hleads _ hr => exact .value hleads (hs.later hleads) hr
    | halt hleads hhalts => exact .halt hleads hhalts

end

/-- Calls keep to the conduct, through composed skills nested to any depth. -/
theorem Conduct.callsKeepWithin {kit : Toolkit σ} (K : Conduct kit) (depth : Nat) :
    K.CallsKeep (kit.callWithin depth) := by
  induction depth with
  | zero => exact fun c s _ _ => .fault _
  | succ depth ih =>
      intro c s hs harguments
      rw [Toolkit.callWithin]
      apply (Conduct.keeps_arguments harguments hs).bind
      intro arguments s₁ _ hs₁ hadmits
      cases conversion? c.name with
      | some kind =>
          have hlift : K.Keeps K.admits s₁.world ((Run.lift (convert kind arguments)).exec s₁) :=
            Conduct.keeps_lift hs₁ fun v hv => Conduct.admits_convert hadmits hv
          apply hlift.bind
          intro v s₂ _ hs₂ hv
          exact .pure hs₂ hv
      | none =>
          cases hfind : kit.find? c.name with
          | none => exact .fault _
          | some skill =>
              cases skill with
              | basic skill =>
                  apply (Conduct.keeps_record hs₁).bind
                  intro _ s₂ hleads hs₂ _
                  apply (Conduct.keeps_readArguments hs₂
                    fun v hv => K.admits_later hleads (hadmits v hv)).bind
                  intro values s₃ _ hs₃ hvalues
                  exact Conduct.keeps_perform hs₃ hvalues
              | composed skill =>
                  have hlift : K.Keeps (fun _ _ => True) s₁.world
                      ((Run.lift (skill.expand arguments)).exec s₁) :=
                    Conduct.keeps_lift hs₁ fun _ _ => trivial
                  apply hlift.bind
                  intro text s₂ _ hs₂ _
                  apply (keeps_runText ih text hs₂).bind
                  intro r s₃ _ hs₃ hr
                  refine .pure hs₃ ?_
                  unfold composedResult
                  split
                  · exact K.admits_failure _ hfind
                  · exact hr
              | unread skill =>
                  apply (Conduct.keeps_record hs₁).bind
                  intro _ s₂ _ hs₂ _
                  have hlift : K.Keeps (fun _ text => skill.expand arguments = .ok text) s₂.world
                      ((Run.lift (skill.expand arguments)).exec s₂) :=
                    Conduct.keeps_lift hs₂ fun _ htext => htext
                  apply hlift.bind
                  intro text s₃ _ hs₃ htext
                  exact Conduct.keeps_lift hs₃ fun r hr => K.admits_unread _ hfind htext hr
              | misread skill =>
                  apply (Conduct.keeps_readArguments hs₁ hadmits).bind
                  intro values s₂ _ hs₂ hvalues
                  apply (Conduct.keeps_perform hs₂ hvalues).bind
                  intro r s₃ hleads hs₃ _
                  apply (Conduct.keeps_record hs₃).bind
                  intro _ s₄ hleads' hs₄ _
                  apply (Conduct.keeps_perform hs₄ fun v hv =>
                    K.admits_later (K.leads_trans hleads hleads') (hvalues v hv)).bind
                  intro _ _ _ _ _
                  exact .fault _

/-- **Calls keep to the rules** of every conduct, through all composed skills. -/
theorem Conduct.callsKeep {kit : Toolkit σ} (K : Conduct kit) : K.CallsKeep kit.call :=
  K.callsKeepWithin maxCallDepth

end DronePilot.Plan
