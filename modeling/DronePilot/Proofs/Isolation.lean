import DronePilot.Proofs.Replanning
import DronePilot.Proofs.Streaming

/-!
# Composed skills and the variables of their callers

The plan of a composed skill uses the same names for its variables as the plan that calls it, and
its arguments are pasted into it as text.  Still neither plan sees the variables of the other: a
computation that starts without variables and gives back only the world is *sealed*
(`Run.Sealed`), and a call of a composed skill is a sealed computation of the values of its
arguments.

* `Run.Sealed.bind`, `runText_sealed` — sealed computations compose, and a text evaluated as a plan
  of its own is one.
* `Toolkit.exec_composed` — what a call of a composed skill comes to.
* `Toolkit.isolated_composed` — so the call is isolated from the scope that it stands in, and what
  it evaluates, at any depth, is the same from every scope that gives its arguments the same values.
-/

namespace DronePilot.Plan

open DronePilot.Skill

variable {σ α β : Type}

/-- The variables that a call is given as arguments. -/
def Call.variables (c : Call) : List String :=
  c.arguments.filterMap fun
    | .variable name => some name
    | .text _ => none

/-- Each of these variables has the same value on both sides, or none on either. -/
def AgreeOn (names : List String) (bindings bindings' : Variables) : Prop :=
  ∀ name ∈ names, bindings.find? name = bindings'.find? name

/-! ### Sealed computations -/

/-- The computation sees nothing of its scope but the world, and changes nothing else. -/
def Run.Sealed (x : Run σ α) : Prop :=
  ∀ s, x.exec s =
    ((x.exec { world := s.world }).1, { s with world := (x.exec { world := s.world }).2.world })

namespace Run

theorem sealed_pure (a : α) : (pure a : Run σ α).Sealed := fun _ => rfl

theorem sealed_fault (f : Fault) : (Run.fault f : Run σ α).Sealed := fun _ => rfl

theorem sealed_lift (x : Except Fault α) : (Run.lift x : Run σ α).Sealed := by
  cases x with
  | ok a => exact sealed_pure a
  | error f => exact sealed_fault f

theorem sealed_isolated (x : Run σ α) : (Run.isolated x).Sealed := by
  intro s
  rw [exec_isolated, exec_isolated]

/-- **One sealed computation after another.**  The second starts from the scope that the first one
left, and sees of it only the world. -/
theorem Sealed.bind {x : Run σ α} {f : α → Run σ β} (hx : x.Sealed) (hf : ∀ a, (f a).Sealed) :
    (x >>= f).Sealed := by
  intro s
  rw [exec_bind, exec_bind, hx s]
  cases x.exec { world := s.world } with
  | mk r s₁ =>
      cases r with
      | error h => rfl
      | ok a =>
          simp only
          rw [hf a { s with world := s₁.world }, hf a s₁]

end Run

/-- A text is evaluated as a plan of its own. -/
theorem runText_sealed (call : Call → Run σ Result) (text : List Char) :
    (runText call text).Sealed := by
  rcases runText_cases call text with ⟨f, hfault⟩ | halone
  · rw [hfault]
    exact Run.sealed_fault f
  · rw [halone]
    exact Run.sealed_isolated _

/-! ### Calls of composed skills -/

/-- Evaluates the plan of a composed skill for given arguments. -/
def Toolkit.runComposed (kit : Toolkit σ) (depth : Nat) (skill : ComposedSkill)
    (values : List Value) : Run σ Result := do
  let text ← Run.lift (skill.expand values)
  let r ← runText (kit.callWithin depth) text
  pure (composedResult skill r)

theorem Toolkit.runComposed_sealed (kit : Toolkit σ) (depth : Nat) (skill : ComposedSkill)
    (values : List Value) : (kit.runComposed depth skill values).Sealed :=
  (Run.sealed_lift _).bind fun text =>
    (runText_sealed (kit.callWithin depth) text).bind fun _ => Run.sealed_pure _

/-- Arguments have the same values among variables that agree on those that are passed. -/
theorem mapM_valueIn_of_agree {arguments : List Argument} {bindings bindings' : Variables}
    (h : ∀ name, .variable name ∈ arguments → bindings.find? name = bindings'.find? name) :
    arguments.mapM (Argument.valueIn bindings) = arguments.mapM (Argument.valueIn bindings') := by
  induction arguments with
  | nil => rfl
  | cons a rest ih =>
      have hfirst : a.valueIn bindings = a.valueIn bindings' := by
        cases a with
        | text s => rfl
        | «variable» name => simp only [Argument.valueIn, h name List.mem_cons_self]
      rw [List.mapM_cons, List.mapM_cons, hfirst,
        ih fun name hname => h name (List.mem_cons_of_mem _ hname)]

theorem Call.mem_variables {c : Call} {name : String} :
    name ∈ c.variables ↔ .variable name ∈ c.arguments := by
  unfold Call.variables
  rw [List.mem_filterMap]
  constructor
  · rintro ⟨a, ha, hname⟩
    cases a with
    | text s => cases hname
    | «variable» other =>
        cases hname
        exact ha
  · intro h
    exact ⟨_, h, rfl⟩

section

variable {kit : Toolkit σ} {c : Call} {skill : ComposedSkill} {s s' : Scope σ}

/-- **What a call of a composed skill comes to.**  The variables around it matter only for the
values of its arguments. -/
theorem Toolkit.exec_composed (depth : Nat) (hname : conversion? c.name = none)
    (hskill : kit.find? c.name = some (.composed skill)) :
    (kit.callWithin (depth + 1) c).exec s =
      match c.arguments.mapM (Argument.valueIn s.bindings) with
      | .error f => (.error (.fault f), s)
      | .ok values => (kit.runComposed depth skill values).exec s := by
  cases hvalues : c.arguments.mapM (Argument.valueIn s.bindings) with
  | error f => exact Toolkit.exec_callWithin_unresolved hvalues
  | ok values => exact Toolkit.exec_callWithin_composed hname hskill hvalues

/-- The call leaves the variables and the flag of its caller as they were. -/
theorem Toolkit.scope_exec_composed (depth : Nat) (hname : conversion? c.name = none)
    (hskill : kit.find? c.name = some (.composed skill)) :
    ((kit.callWithin depth c).exec s).2 =
      { s with world := ((kit.callWithin depth c).exec s).2.world } := by
  cases depth with
  | zero => rfl
  | succ depth =>
      rw [Toolkit.exec_composed depth hname hskill]
      cases c.arguments.mapM (Argument.valueIn s.bindings) with
      | error f => rfl
      | ok values =>
          simp only
          rw [kit.runComposed_sealed depth skill values s]

/-- The call sees of the variables of its caller only those that are passed to it. -/
theorem Toolkit.exec_composed_of_agree (depth : Nat) (hname : conversion? c.name = none)
    (hskill : kit.find? c.name = some (.composed skill)) (hworld : s'.world = s.world)
    (hagree : AgreeOn c.variables s'.bindings s.bindings) :
    ((kit.callWithin depth c).exec s').1 = ((kit.callWithin depth c).exec s).1 ∧
      ((kit.callWithin depth c).exec s').2.world = ((kit.callWithin depth c).exec s).2.world := by
  cases depth with
  | zero => exact ⟨rfl, hworld⟩
  | succ depth =>
      have hvalues := mapM_valueIn_of_agree fun name h => hagree name (Call.mem_variables.2 h)
      rw [Toolkit.exec_composed depth hname hskill, Toolkit.exec_composed depth hname hskill,
        hvalues]
      cases c.arguments.mapM (Argument.valueIn s.bindings) with
      | error f => exact ⟨rfl, hworld⟩
      | ok values =>
          simp only
          rw [kit.runComposed_sealed depth skill values s',
            kit.runComposed_sealed depth skill values s, hworld]
          exact ⟨rfl, rfl⟩

/-- What the call evaluates first is the same from every scope that agrees on its arguments. -/
theorem Site.Leads.of_agree {depth : Nat} (hworld : s'.world = s.world)
    (hagree : AgreeOn c.variables s'.bindings s.bindings) {site : Site σ}
    (h : Site.Leads kit ⟨depth, .expr (.call c), s⟩ site) :
    Site.Leads kit ⟨depth, .expr (.call c), s'⟩ site := by
  cases h with
  | composed hname hskill hvalues hexpand hread hcomplete =>
      rw [← hworld]
      refine .composed hname hskill ?_ hexpand hread hcomplete
      rw [mapM_valueIn_of_agree fun name h => hagree name (Call.mem_variables.2 h), hvalues]

end

/-- The call is isolated from the variables of the scope that it stands in. -/
structure Isolated (kit : Toolkit σ) (depth : Nat) (c : Call) (s : Scope σ) : Prop where
  /-- It leaves the variables of its caller as they were, whether it halts or not. -/
  keeps : ((kit.callWithin depth c).exec s).2 =
    { s with world := ((kit.callWithin depth c).exec s).2.world }
  /-- From other variables that agree on those passed to it, it comes to the same result or halts
  for the same reason, does the same to the world, and evaluates the same things on the way. -/
  sees : ∀ s' : Scope σ, s'.world = s.world → AgreeOn c.variables s'.bindings s.bindings →
    ((kit.callWithin depth c).exec s').1 = ((kit.callWithin depth c).exec s).1 ∧
      ((kit.callWithin depth c).exec s').2.world = ((kit.callWithin depth c).exec s).2.world ∧
      ∀ site, Relation.TransGen (Site.Leads kit) ⟨depth, .expr (.call c), s'⟩ site ↔
        Relation.TransGen (Site.Leads kit) ⟨depth, .expr (.call c), s⟩ site
  /-- An assignment around it gives its value to the variable assigned, and changes no other. -/
  assigned : ∀ name, ((Expr.assign name (.call c)).eval (kit.callWithin depth)).exec s =
    match (kit.callWithin depth c).exec s with
    | (.ok r, s₁) =>
      (.ok r, { s with world := s₁.world, bindings := s.bindings.insert name r.value })
    | (.error h, s₁) => (.error h, { s with world := s₁.world })

/-- **A call of a composed skill is isolated**, at every depth and in every scope. -/
theorem Toolkit.isolated_composed {kit : Toolkit σ} {c : Call} {skill : ComposedSkill}
    (hname : conversion? c.name = none) (hskill : kit.find? c.name = some (.composed skill))
    (depth : Nat) (s : Scope σ) : Isolated kit depth c s where
  keeps := Toolkit.scope_exec_composed depth hname hskill
  sees := by
    intro s' hworld hagree
    have hagree' : AgreeOn c.variables s.bindings s'.bindings :=
      fun name h => (hagree name h).symm
    have hsame := Toolkit.exec_composed_of_agree depth hname hskill hworld hagree
    refine ⟨hsame.1, hsame.2, fun site => ?_⟩
    rw [Relation.TransGen.head'_iff, Relation.TransGen.head'_iff]
    constructor
    · rintro ⟨next, hfirst, hrest⟩
      exact ⟨next, hfirst.of_agree hworld.symm hagree', hrest⟩
    · rintro ⟨next, hfirst, hrest⟩
      exact ⟨next, hfirst.of_agree hworld hagree, hrest⟩
  assigned := by
    intro name
    have hkeeps := Toolkit.scope_exec_composed depth hname hskill (s := s)
    simp only [Expr.eval]
    rw [Run.exec_bind]
    cases hcall : (kit.callWithin depth c).exec s with
    | mk r s₁ =>
        rw [hcall] at hkeeps
        cases r with
        | error h => exact congrArg _ hkeeps
        | ok r =>
            simp only at hkeeps ⊢
            rw [Run.exec_bind_ok (Run.exec_assign name r.value s₁), hkeeps]
            rfl

/-- **Composed skills and their callers do not see each other's variables.**  Take any text that
calls a composed skill, whatever the basic skills do, from any scope.  The call changes no variable
around it, and from other variables that agree on those passed to it makes the same calls of basic
skills and comes to the same result or halts for the same reason; an assignment around it changes
the variable assigned only.  The same goes for every call of a composed skill that its evaluation
leads to, through composed skills nested to any depth. -/
theorem composed_calls_isolated (kit : Toolkit σ) (depth : Nat) (text : List Char)
    {skill : ComposedSkill} (hname : conversion? (Call.ofText text).name = none)
    (hskill : kit.find? (Call.ofText text).name = some (.composed skill))
    (s : Scope (σ × List Invocation)) :
    Isolated kit.logged depth (Call.ofText text) s ∧
      ∀ site, Relation.TransGen (Site.Leads kit.logged)
          ⟨depth, .expr (.call (Call.ofText text)), s⟩ site →
        ∀ c inner, site.task = .expr (.call c) → conversion? c.name = none →
          kit.find? c.name = some (.composed inner) →
          Isolated kit.logged site.depth c site.scope := by
  have hlogged : ∀ name, kit.logged.find? name = kit.find? name := fun _ => rfl
  rw [← hlogged] at hskill
  refine ⟨Toolkit.isolated_composed hname hskill depth s, ?_⟩
  intro site _ c inner _ hname' hskill'
  rw [← hlogged] at hskill'
  exact Toolkit.isolated_composed hname' hskill' site.depth site.scope

/-- Says a text. -/
def speaking : BasicSkill :=
  { name := "say", abbreviation := "s", parameters := [{ name := "text", kind := .text }] }

/-- Says a greeting and keeps what came of it. -/
def greeting : ComposedSkill :=
  { name := "greet", abbreviation := "g", definition := "_1=say($1);", placed := true
    parameters := [{ name := "text", kind := .text }] }

/-- Greets, and keeps what came of it under another name. -/
def welcoming : ComposedSkill :=
  { name := "welcome", abbreviation := "w", definition := "_2=greet($1);", placed := true
    parameters := [{ name := "text", kind := .text }] }

/-- A robot that welcomes people. -/
def host : Toolkit Unit where
  low := .ofList [("say", .basic speaking)]
  high := .ofList [("greet", .composed greeting), ("welcome", .composed welcoming)]
  perform _ _ _ := (.ok (.ofValue (.bool true)), ())

/-- A scope in which one variable is passed on and the other has a value of its own. -/
def hosting (v : Value) : Scope (Unit × List Invocation) :=
  { world := ((), []), bindings := .ofList [("_1", .text "hi"), ("_2", v)] }

theorem ofText_greet :
    Expr.ofText "_2=greet(hi)".toList =
      .assign "_2" (.call { name := "greet", arguments := [.text "hi"] }) := by
  have hgreet : Expr.ofText "greet(hi)".toList =
      .call { name := "greet", arguments := [.text "hi"] } := by
    rw [Expr.ofText]
    rfl
  rw [← hgreet, Expr.ofText]
  rfl

/-- Welcoming the person that the variable `_1` names leads to a greeting, whatever the variable
`_2` of the caller is; both calls are isolated. -/
theorem composed_calls_isolated_welcome :
    Call.ofText "welcome(_1)".toList = { name := "welcome", arguments := [.variable "_1"] } ∧
      AgreeOn ["_1"] (hosting (.int 5)).bindings (hosting .nothing).bindings ∧
      Isolated host.logged maxCallDepth (Call.ofText "welcome(_1)".toList) (hosting .nothing) ∧
      ∃ site, Relation.TransGen (Site.Leads host.logged)
          ⟨maxCallDepth, .expr (.call (Call.ofText "welcome(_1)".toList)), hosting .nothing⟩ site ∧
        site.task = .expr (.call { name := "greet", arguments := [.text "hi"] }) ∧
        Isolated host.logged site.depth { name := "greet", arguments := [.text "hi"] }
          site.scope := by
  have hskill : host.find? (Call.ofText "welcome(_1)".toList).name = some (.composed welcoming) :=
    rfl
  obtain ⟨houter, hinner⟩ := composed_calls_isolated host maxCallDepth "welcome(_1)".toList rfl
    hskill (hosting .nothing)
  have hvalues : (Call.ofText "welcome(_1)".toList).arguments.mapM
      (Argument.valueIn (hosting .nothing).bindings) = .ok [.text "hi"] := rfl
  have hexpand : welcoming.expand [.text "hi"] = .ok "_2=greet(hi);".toList := rfl
  have hread : Body.fresh.feed "_2=greet(hi);".toList =
      ({ statements := [.action { text := "_2=greet(hi)", named := true }]
         current := .fresh
         depth := 0
         finished := false }, .more) := rfl
  have hleads : Relation.TransGen (Site.Leads host.logged)
      ⟨maxCallDepth, .expr (.call (Call.ofText "welcome(_1)".toList)), hosting .nothing⟩
      ⟨239, .expr (.call { name := "greet", arguments := [.text "hi"] }),
        { world := ((), []) }⟩ := by
    refine .head (.composed rfl hskill hvalues hexpand hread (by simp)) ?_
    refine .head .first (.head (.action rfl) (.single ?_))
    rw [ofText_greet]
    exact .assign
  have hagree : AgreeOn ["_1"] (hosting (.int 5)).bindings (hosting .nothing).bindings :=
    List.forall_mem_singleton.2 rfl
  exact ⟨rfl, hagree, houter, _, hleads, rfl, hinner _ hleads _ greeting rfl rfl rfl⟩

end DronePilot.Plan
