import DronePilot.Plan.Evaluator

/-!
# Computations in a scope

A computation of the evaluator threads a scope and may halt.  `Run.exec` runs one from a scope; the
equations below say what each primitive does to the scope, so that later proofs follow an evaluation
step by step and never open the monad.  The scope at a halt is the scope reached by then: what has
been done stays done.
-/

namespace DronePilot.Plan

open DronePilot.Skill

variable {σ α β : Type}

/-- Runs a computation from a scope: its value or the reason why it halted, and the scope then. -/
def Run.exec (x : Run σ α) (scope : Scope σ) : Except Halt α × Scope σ :=
  x.run.run scope

namespace Run

@[simp]
theorem exec_pure (a : α) (scope : Scope σ) : (pure a : Run σ α).exec scope = (.ok a, scope) := rfl

/-- One computation after another: the second starts where the first one ended, if it did not
halt. -/
theorem exec_bind (x : Run σ α) (f : α → Run σ β) (scope : Scope σ) :
    (x >>= f).exec scope =
      match x.exec scope with
      | (.ok a, scope') => (f a).exec scope'
      | (.error h, scope') => (.error h, scope') := by
  unfold Run.exec
  simp only [ExceptT.run, bind, ExceptT.bind, ExceptT.mk, StateT.run, StateT.bind]
  cases hx : x scope with
  | mk r scope' =>
      cases r with
      | ok a => rfl
      | error h => rfl

/-- Computations in order, where the first one has a value. -/
theorem exec_bind_ok {x : Run σ α} {scope scope' : Scope σ} {a : α}
    (h : x.exec scope = (.ok a, scope')) (f : α → Run σ β) :
    (x >>= f).exec scope = (f a).exec scope' := by
  rw [exec_bind, h]

/-- Computations in order, where the first one halts. -/
theorem exec_bind_error {x : Run σ α} {scope scope' : Scope σ} {e : Halt}
    (h : x.exec scope = (.error e, scope')) (f : α → Run σ β) :
    (x >>= f).exec scope = (.error e, scope') := by
  rw [exec_bind, h]

/-- What halts first halts both. -/
theorem fst_exec_bind_error {x : Run σ α} {scope : Scope σ} {h : Halt}
    (hx : (x.exec scope).1 = .error h) (f : α → Run σ β) :
    ((x >>= f).exec scope).1 = .error h := by
  have hexec : x.exec scope = (.error h, (x.exec scope).2) := Prod.ext hx rfl
  rw [exec_bind_error hexec]

/-- What leaves the world alone does so after another computation. -/
theorem world_exec_bind {x : Run σ α} {f : α → Run σ β}
    (hf : ∀ a scope, ((f a).exec scope).2.world = scope.world) (scope : Scope σ) :
    ((x >>= f).exec scope).2.world = (x.exec scope).2.world := by
  rw [exec_bind]
  split
  · rename_i a scope' hx
    rw [hf, hx]
  · rename_i e scope' hx
    rw [hx]

/-- A sequence of two computations that gives a value is one whose parts both do. -/
theorem ok_of_exec_bind {x : Run σ α} {f : α → Run σ β} {scope scope' : Scope σ} {b : β}
    (h : (x >>= f).exec scope = (.ok b, scope')) :
    ∃ a scope₁, x.exec scope = (.ok a, scope₁) ∧ (f a).exec scope₁ = (.ok b, scope') := by
  rw [exec_bind] at h
  split at h
  · rename_i a scope₁ hx
    exact ⟨a, scope₁, hx, h⟩
  · cases h

@[simp]
theorem exec_get (scope : Scope σ) :
    (get : Run σ (Scope σ)).exec scope = (.ok scope, scope) := rfl

@[simp]
theorem exec_set (scope scope' : Scope σ) :
    (set scope' : Run σ PUnit).exec scope = (.ok ⟨⟩, scope') := rfl

@[simp]
theorem exec_lift_ok (a : α) (scope : Scope σ) :
    (Run.lift (.ok a) : Run σ α).exec scope = (.ok a, scope) := rfl

/-- A pure computation that has a value leaves the scope alone. -/
theorem ok_of_exec_lift {x : Except Fault α} {a : α} {scope scope' : Scope σ}
    (h : (Run.lift x).exec scope = (.ok a, scope')) : x = .ok a ∧ scope' = scope := by
  cases x with
  | error f => cases h
  | ok b =>
      cases h
      exact ⟨rfl, rfl⟩

/-- A pure computation does nothing to the world. -/
theorem world_exec_lift (x : Except Fault α) (scope : Scope σ) :
    ((Run.lift x).exec scope).2.world = scope.world := by
  cases x <;> rfl

/-- Values that can be written are recorded, and nothing else happens. -/
theorem exec_record {values : List Value} (h : ∀ v ∈ values, v.isWritable = true)
    (scope : Scope σ) : (Run.record values).exec scope = (.ok ⟨⟩, scope) := by
  rw [Run.record, recording, if_pos (List.all_eq_true.2 h), exec_lift_ok]

/-- Nothing is written for the result that there is none. -/
theorem record_none : (Run.record [Result.none.value] : Run σ Unit) = pure ⟨⟩ := rfl

/-- A number with too many digits halts the evaluation. -/
theorem exec_record_error {values : List Value} {v : Value} (hv : v ∈ values)
    (h : v.isWritable = false) (scope : Scope σ) :
    (Run.record values).exec scope = (.error (.fault .unwritable), scope) := by
  have hall : ¬values.all Value.isWritable = true := by
    rw [List.all_eq_true]
    intro hall
    rw [hall v hv] at h
    cases h
  rw [Run.record, recording, if_neg hall]
  rfl

/-- Values that were recorded can be written, and nothing else has happened. -/
theorem ok_of_exec_record {values : List Value} {scope scope' : Scope σ} {u : Unit}
    (h : (Run.record values).exec scope = (.ok u, scope')) :
    (∀ v ∈ values, v.isWritable = true) ∧ scope' = scope := by
  obtain ⟨hrecorded, rfl⟩ := ok_of_exec_lift h
  cases hall : values.all Value.isWritable with
  | true => exact ⟨List.all_eq_true.1 hall, rfl⟩
  | false =>
      rw [recording, hall] at hrecorded
      cases hrecorded

@[simp]
theorem exec_setReturned (b : Bool) (scope : Scope σ) :
    (Run.setReturned b).exec scope = (.ok ⟨⟩, { scope with returned := b }) := rfl

/-- An assignment changes one variable. -/
@[simp]
theorem exec_assign (name : String) (v : Value) (scope : Scope σ) :
    (Run.assign name v).exec scope =
      (.ok ⟨⟩, { scope with bindings := scope.bindings.insert name v }) := rfl

/-- Running a basic skill changes nothing but the world. -/
theorem exec_perform (kit : Toolkit σ) (skill : BasicSkill) (arguments : List Value)
    (scope : Scope σ) :
    (Run.perform kit skill arguments).exec scope =
      ((kit.perform skill arguments scope.world).1,
        { scope with world := (kit.perform skill arguments scope.world).2 }) := by
  unfold Run.perform
  rw [exec_bind_ok (exec_get scope)]
  cases kit.perform skill arguments scope.world with
  | mk answer world => cases answer <;> rfl

/-- An isolated computation starts without variables, and gives back only the world. -/
theorem exec_isolated (x : Run σ α) (scope : Scope σ) :
    (Run.isolated x).exec scope =
      ((x.exec { world := scope.world }).1,
        { scope with world := (x.exec { world := scope.world }).2.world }) := by
  unfold Run.isolated Run.exec
  rw [← Run.exec, exec_bind_ok (exec_get scope)]
  cases x.run.run { world := scope.world } with
  | mk r inner =>
      simp only
      rw [exec_bind_ok (exec_set scope _)]
      cases r with
      | ok a => rfl
      | error h => rfl

end Run

/-- The value of an argument among given variables. -/
def Argument.valueIn (bindings : Variables) : Argument → Except Fault Value
  | .variable name =>
    match bindings.find? name with
    | some v => .ok v
    | none => .error (.undefinedVariable name)
  | .text s => .ok (.text s)

/-- Resolving an argument reads the variables and changes nothing. -/
theorem Argument.exec_resolve (a : Argument) (scope : Scope σ) :
    (a.resolve : Run σ Value).exec scope = (Run.lift (a.valueIn scope.bindings)).exec scope := by
  rcases a with name | s
  · simp only [Argument.resolve, Run.variable, Argument.valueIn]
    rw [Run.exec_bind_ok (Run.exec_get scope)]
    cases scope.bindings.find? name with
    | some v => rfl
    | none => rfl
  · rfl

/-- The arguments of a call are resolved from left to right, each from the same variables. -/
theorem exec_mapM_resolve_eq (arguments : List Argument) (scope : Scope σ) :
    (arguments.mapM Argument.resolve : Run σ (List Value)).exec scope =
      (Run.lift (arguments.mapM (Argument.valueIn scope.bindings))).exec scope := by
  induction arguments with
  | nil => rfl
  | cons a rest ih =>
      rw [List.mapM_cons, List.mapM_cons, Run.exec_bind, Argument.exec_resolve]
      cases a.valueIn scope.bindings with
      | error f => rfl
      | ok v =>
          simp only [Run.exec_lift_ok]
          rw [Run.exec_bind, ih]
          cases rest.mapM (Argument.valueIn scope.bindings) with
          | error f => rfl
          | ok vs => rfl

/-- Arguments that have values are resolved to them. -/
theorem exec_mapM_resolve {arguments : List Argument} {scope : Scope σ} {values : List Value}
    (h : arguments.mapM (Argument.valueIn scope.bindings) = .ok values) :
    (arguments.mapM Argument.resolve : Run σ (List Value)).exec scope = (.ok values, scope) := by
  rw [exec_mapM_resolve_eq, h]
  rfl

end DronePilot.Plan
