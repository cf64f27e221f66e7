import DronePilot.Proofs.CallText

/-!
# Quoted arguments

A plan hands a text to a skill between quotation marks.  Neither the reader nor the analysis minds
them: a character that ends a statement ends it between the marks too, an equals sign assigns, a
sign of arithmetic divides the text into operands, and a low line at the beginning names a variable.
A composed skill pastes the text into its plan without the marks, where commas divide it besides.

That a text without such characters arrives is computed, along the one call that it is read as
(`callsOf_quotedCall`, `Toolkit.HandsOn.world_call_uncut`).  That no other text does needs an
argument about all that the plan may do instead.  An equals sign is in no first call of any plan;
otherwise the plan begins with a call whose arguments come from before the first character at which
it is cut (`uncut_of_arrives`).  `quoted_text_arrives_iff` puts the two together.
-/

namespace DronePilot.Plan

open DronePilot.Skill DronePilot.Text DronePilot.Decimal

variable {σ : Type}

/-! ### Texts -/

/-- The call of a skill with a quoted argument. -/
def quotedCall (name s : String) : String :=
  name ++ "('" ++ s ++ "');"

/-- A text that is fit to be quoted. -/
structure Quotable (s : String) : Prop where
  nonempty : s ≠ ""
  unquoted : ∀ c ∈ s.toList, isQuoteMark c = false
  trimmed : trim s.toList = s.toList

/-- Nothing in the text is taken for something else: it is not cut, and it does not name a
variable. -/
def Sheltered (s : String) : Prop :=
  (∀ c ∈ s.toList, isCutting c = false) ∧ s.toList.head? ≠ some '_'

/-- No comma stands before the first opening bracket. -/
def Undivided (s : String) : Prop :=
  ',' ∉ s.toList.takeWhile (· != '(')

instance (s : String) : Decidable (Sheltered s) :=
  decidable_of_iff (s.toList.all (fun c => !isCutting c) = true ∧ s.toList.head? ≠ some '_')
    (by simp [Sheltered])

instance (s : String) : Decidable (Undivided s) :=
  decidable_of_iff ((s.toList.takeWhile (· != '(')).contains ',' = false) (by simp [Undivided])

/-- The characters of a call with a quoted text. -/
theorem toList_quotedCall (name s : String) :
    (quotedCall name s).toList =
      name.toList ++ '(' :: (('\'' :: (s.toList ++ ['\''])) ++ [')', ';']) := by
  simp [quotedCall]

/-- Marks around a text without such marks are removed. -/
theorem trimWhere_between {p : Char → Bool} {a b : Char} (ha : p a = true) (hb : p b = true)
    {s : List Char} (hs : ∀ c ∈ s, p c = false) : trimWhere p (a :: (s ++ [b])) = s := by
  cases s with
  | nil => simp [trimWhere, ha, hb]
  | cons c s =>
      have hc := hs c List.mem_cons_self
      have hreverse : trimWhere p (c :: s) = c :: s := trimWhere_eq_self hs
      rw [trimWhere, List.dropWhile_cons_of_pos ha, List.cons_append,
        List.dropWhile_cons_of_neg (by simp [hc]), ← List.cons_append, List.reverse_append,
        List.reverse_singleton, List.singleton_append, List.dropWhile_cons_of_pos hb]
      rw [trimWhere, List.dropWhile_cons_of_neg (by simp [hc])] at hreverse
      exact hreverse

/-- A quoted text is one argument, and a variable if it begins with a low line. -/
theorem argumentsOf_quoted {s : List Char} (hs : ∀ c ∈ s, isQuoteMark c = false) :
    argumentsOf (('\'' :: (s ++ ['\''])) ++ [')']) =
      [if s.head? = some '_' then .variable (String.ofList s) else .text (String.ofList s)] := by
  have htrim : trim (('\'' :: (s ++ ['\''])) ++ [')']) = ('\'' :: (s ++ ['\''])) ++ [')'] := by
    apply trim_eq_self
    · intro c hc
      cases hc
      rfl
    · intro c hc
      rw [List.getLast?_concat] at hc
      cases hc
      rfl
  have htrim' : trim ('\'' :: (s ++ ['\''])) = '\'' :: (s ++ ['\'']) := by
    apply trim_eq_self
    · intro c hc
      cases hc
      rfl
    · intro c hc
      rw [← List.cons_append, List.getLast?_concat] at hc
      cases hc
      rfl
  have hquoted : isSingleQuoted ('\'' :: (s ++ ['\''])) = true := by
    rw [isSingleQuoted, ← List.cons_append, List.getLast?_concat]
    rfl
  rw [argumentsOf, htrim, List.dropLast_concat, splitArguments, if_pos hquoted, List.map_singleton,
    Argument.ofText, htrim', trimWhere_between rfl rfl hs]

/-- A trimmed text does not begin with a blank. -/
theorem head_of_trimmed {s : List Char} (h : trim s = s) {c : Char} (hc : s.head? = some c) :
    isBlank c = false := by
  cases s with
  | nil => cases hc
  | cons d s =>
      cases hc
      cases hblank : isBlank c with
      | false => rfl
      | true =>
          -- Otherwise trimming would have made it shorter.
          have hdrop : (trim (c :: s)).length ≤ s.length := by
            rw [trim, trimWhere, List.dropWhile_cons_of_pos hblank, List.length_reverse]
            have hfront := length_dropWhile_le isBlank s
            have hback := length_dropWhile_le isBlank (s.dropWhile isBlank).reverse
            rw [List.length_reverse] at hback
            omega
          rw [h, List.length_cons] at hdrop
          omega

/-- A bare text is cut at its commas. -/
theorem argumentsOf_bare {s : List Char} (hs : ∀ c ∈ s, isQuoteMark c = false)
    (htrimmed : trim s = s) :
    argumentsOf (s ++ [')']) = (splitArgumentsFrom 0 [] s).map Argument.ofText := by
  have htrim : trim (s ++ [')']) = s ++ [')'] := by
    apply trim_eq_self
    · intro c hc
      cases s with
      | nil =>
          cases hc
          rfl
      | cons d s => exact head_of_trimmed htrimmed hc
    · intro c hc
      rw [List.getLast?_concat] at hc
      cases hc
      rfl
  have hquoted : isSingleQuoted s = false := by
    cases s with
    | nil => rfl
    | cons c s =>
        have hc : c ≠ '\'' := by
          intro heq
          cases hs '\'' (heq ▸ List.mem_cons_self)
        simp [isSingleQuoted, hc]
  rw [argumentsOf, htrim, List.dropLast_concat, splitArguments, hquoted]
  rfl

/-- A character that does not divide goes to the argument under way. -/
theorem splitArgumentsFrom_cons {depth : Int} {c : Char} (h : c = ',' → depth ≠ 0)
    (argument s : List Char) :
    splitArgumentsFrom depth argument (c :: s) =
      splitArgumentsFrom (bracketDepth depth c) (argument ++ [c]) s := by
  have hnot : ¬(decide (c = ',') && decide (depth = 0)) = true := by
    simpa using h
  rw [splitArgumentsFrom, if_neg hnot]

/-- Behind an opening bracket that is not closed again, no comma divides. -/
theorem splitArgumentsFrom_inside {depth : Int} (hdepth : 0 < depth) {s : List Char}
    (hs : ')' ∉ s) (argument : List Char) :
    splitArgumentsFrom depth argument s = splitArgumentsFrom 0 (argument ++ s) [] := by
  induction s generalizing depth argument with
  | nil => simp [splitArgumentsFrom]
  | cons c s ih =>
      have hc : c ≠ ')' := fun heq => hs (heq ▸ List.mem_cons_self)
      have hnext : 0 < bracketDepth depth c := by
        rw [bracketDepth, if_neg hc]
        split <;> omega
      rw [splitArgumentsFrom_cons (fun _ => by omega),
        ih hnext (fun hmem => hs (List.mem_cons_of_mem _ hmem)), List.append_assoc,
        List.singleton_append]

/-- Without a comma before the first opening bracket, the text is one argument. -/
theorem splitArgumentsFrom_undivided {s : List Char} (hs : ')' ∉ s)
    (hcomma : ',' ∉ s.takeWhile (· != '(')) (argument : List Char) :
    splitArgumentsFrom 0 argument s = splitArgumentsFrom 0 (argument ++ s) [] := by
  induction s generalizing argument with
  | nil => simp
  | cons c s ih =>
      have hrest : ')' ∉ s := fun hmem => hs (List.mem_cons_of_mem _ hmem)
      have hc : c ≠ ')' := fun heq => hs (heq ▸ List.mem_cons_self)
      by_cases hopen : c = '('
      · subst hopen
        have hdepth : 0 < bracketDepth 0 '(' := by decide
        rw [splitArgumentsFrom_cons (by decide), splitArgumentsFrom_inside hdepth hrest,
          List.append_assoc, List.singleton_append]
      · rw [List.takeWhile_cons_of_pos (by simp [hopen]), List.mem_cons, not_or] at hcomma
        have hdepth : bracketDepth 0 c = 0 := by
          rw [bracketDepth, if_neg hopen, if_neg hc]
        rw [splitArgumentsFrom_cons (fun heq => absurd heq.symm hcomma.1), hdepth,
          ih hrest hcomma.2, List.append_assoc, List.singleton_append]

/-- With a comma before the first opening bracket, an argument that is the only one is without. -/
theorem not_mem_of_divided {s : List Char} (hs : ')' ∉ s)
    (hcomma : ',' ∈ s.takeWhile (· != '(')) {argument piece : List Char}
    (hargument : ',' ∉ argument) (h : splitArgumentsFrom 0 argument s = [piece]) : ',' ∉ piece := by
  induction s generalizing argument with
  | nil => cases hcomma
  | cons c s ih =>
      have hopen : c ≠ '(' := by
        intro heq
        subst heq
        cases hcomma
      have hc : c ≠ ')' := fun heq => hs (heq ▸ List.mem_cons_self)
      rw [List.takeWhile_cons_of_pos (by simp [hopen])] at hcomma
      by_cases hdivides : c = ','
      · rw [splitArgumentsFrom, if_pos (by simp [hdivides])] at h
        rw [← (List.cons.inj h).1]
        exact fun hmem => hargument (mem_of_mem_trim hmem)
      · have hdepth : bracketDepth 0 c = 0 := by
          rw [bracketDepth, if_neg hopen, if_neg hc]
        rw [splitArgumentsFrom_cons (fun heq => absurd heq hdivides), hdepth] at h
        have hnext : ',' ∉ argument ++ [c] := by
          simp [hargument, Ne.symm hdivides]
        have hcomma' : ',' ∈ s.takeWhile (· != '(') :=
          (List.mem_cons.1 hcomma).resolve_left (Ne.symm hdivides)
        exact ih (fun hmem => hs (List.mem_cons_of_mem _ hmem)) hcomma' hnext h

/-! ### Skills -/

/-- A basic skill that takes one text, under a name that plans can call. -/
structure Toolkit.TakesText (kit : Toolkit σ) (name : String) (skill : BasicSkill) : Prop where
  callable : isCallable name.toList = true
  no_conversion : conversion? name = none
  found : kit.find? name = some (.basic skill)
  runs : skill.binding = .operation
  one_text : ∃ p : Parameter, skill.parameters = [p] ∧ p.kind = .text

/-- A composed skill that hands its only argument on to another skill. -/
structure Toolkit.HandsOn (kit : Toolkit σ) (name : String) (skill : ComposedSkill)
    (inner : String) : Prop where
  callable : isCallable name.toList = true
  no_conversion : conversion? name = none
  found : kit.find? name = some (.composed skill)
  placed : skill.placed = true
  one_argument : skill.parameters.length = 1
  definition : skill.definition = inner ++ "($1);"

/-- Without variables, arguments have values only if all of them are texts. -/
theorem mapM_valueIn_empty (arguments : List Argument) :
    (∃ f, arguments.mapM (Argument.valueIn Table.empty) = .error f) ∨
      ∃ ts : List String, arguments = ts.map .text ∧
        arguments.mapM (Argument.valueIn Table.empty) = .ok (ts.map .text) := by
  induction arguments with
  | nil => exact Or.inr ⟨[], rfl, rfl⟩
  | cons a rest ih =>
      rw [List.mapM_cons]
      cases a with
      | «variable» name => exact Or.inl ⟨.undefinedVariable name, rfl⟩
      | text t =>
          rcases ih with ⟨f, hrest⟩ | ⟨ts, harguments, hrest⟩
          · exact Or.inl ⟨f, by rw [hrest]; rfl⟩
          · exact Or.inr ⟨t :: ts, by rw [harguments]; rfl, by rw [hrest]; rfl⟩

section

variable {kit : Toolkit σ} {name inner : String} {skill : BasicSkill} {composed : ComposedSkill}
  (depth : Nat)

/-- Called with a text, the skill is run with that text, trimmed. -/
theorem Toolkit.TakesText.log_call (h : kit.TakesText name skill) (t : String)
    (w : σ × List Invocation) :
    ((kit.logged.callWithin (depth + 1) { name := name, arguments := [.text t] }).exec
      { world := w }).2.world.2 =
        w.2 ++ [{ skill := skill, arguments := [.text (String.ofList (trim t.toList))] }] := by
  obtain ⟨p, hparameters, hkind⟩ := h.one_text
  have harguments : skill.arguments [.text t] = .ok [.text (String.ofList (trim t.toList))] := by
    simp [BasicSkill.arguments, h.runs, readArguments, readArgumentsFrom, hparameters,
      Parameter.readArgument, hkind, ParameterKind.read]
    rfl
  have hwritable : ∀ v ∈ [Value.text t], v.isWritable = true := List.forall_mem_singleton.2 rfl
  rw [Toolkit.exec_callWithin_performs h.no_conversion h.found rfl hwritable harguments]
  rfl

/-- A call of a skill that takes one argument fails without variables, unless the argument is a
text. -/
theorem Toolkit.exec_call_refused {kit : Toolkit σ} {depth : Nat} {c : Call} {w : σ}
    (hother : ∀ t, c.arguments ≠ [.text t])
    (hrefused : ∀ values : List Value, values.length ≠ 1 →
      c.arguments.mapM (Argument.valueIn Table.empty) = .ok values →
      ∃ f, (kit.callWithin (depth + 1) c).exec { world := w } =
        (.error (.fault f), { world := w })) :
    ∃ f, (kit.callWithin (depth + 1) c).exec { world := w } =
      (.error (.fault f), { world := w }) := by
  rcases mapM_valueIn_empty c.arguments with ⟨f, hvalues⟩ | ⟨ts, harguments, hvalues⟩
  · exact ⟨f, Toolkit.exec_callWithin_unresolved hvalues⟩
  · refine hrefused _ ?_ hvalues
    rw [List.length_map]
    intro hone
    obtain ⟨t, rfl⟩ := List.length_eq_one_iff.1 hone
    exact hother t harguments

/-- Called with anything but one text, it is not run. -/
theorem Toolkit.TakesText.exec_call_other (h : kit.TakesText name skill) {arguments : List Argument}
    (hother : ∀ t, arguments ≠ [.text t]) (w : σ × List Invocation) :
    ∃ f, (kit.logged.callWithin (depth + 1) { name := name, arguments := arguments }).exec
      { world := w } = (.error (.fault f), { world := w }) := by
  apply Toolkit.exec_call_refused hother
  intro values hlength hvalues
  obtain ⟨p, hparameters, -⟩ := h.one_text
  have hrefused : skill.arguments values = .error (.wrongArity 1 values.length) := by
    simp [BasicSkill.arguments, h.runs, readArguments, hparameters, hlength]
  rw [Toolkit.exec_callWithin_basic h.no_conversion h.found hvalues, hrefused, Run.record]
  cases recording values with
  | error f => exact ⟨f, rfl⟩
  | ok _ => exact ⟨_, rfl⟩

/-- Pasting a text in for the placeholder gives the call with the bare text. -/
theorem Toolkit.HandsOn.expand (h : kit.HandsOn name composed inner)
    (hinner : isCallable inner.toList = true) (t : String) :
    composed.expand [.text t] = .ok (inner.toList ++ '(' :: (t.toList ++ [')', ';'])) := by
  have hword : ∀ {cs : List Char}, '$' ∉ cs → ∀ rest,
      replaceFrom ['$', '1'] t.toList 0 (cs ++ rest) =
        cs ++ replaceFrom ['$', '1'] t.toList 0 rest := by
    intro cs
    induction cs with
    | nil => simp
    | cons c cs ih =>
        intro hcs rest
        have hc : '$' ≠ c := fun heq => hcs (heq ▸ List.mem_cons_self)
        rw [List.cons_append, replaceFrom, if_neg (by simp [hc]),
          ih (fun hmem => hcs (List.mem_cons_of_mem _ hmem)), List.cons_append]
  have hplaceholder : placeholder 1 = ['$', '1'] := rfl
  have hname : '$' ∉ inner.toList := not_mem_of_callable hinner (by decide)
  simp only [ComposedSkill.expand, h.placed, h.one_argument, h.definition]
  simp [pasteFrom, hplaceholder, replaceAll, hword hname, replaceFrom]

/-- Called with a text, the composed skill evaluates the call of the inner one. -/
theorem Toolkit.HandsOn.exec_call_text (h : kit.HandsOn name composed inner)
    (hinner : isCallable inner.toList = true) (t : String) (w : σ × List Invocation) :
    (kit.logged.callWithin (depth + 1) { name := name, arguments := [.text t] }).exec
      { world := w } =
        (do
          let r ← runText (kit.logged.callWithin depth)
            (inner.toList ++ '(' :: (t.toList ++ [')', ';']))
          pure (composedResult composed r) : Run (σ × List Invocation) Result).exec
            { world := w } := by
  have hvalues : [Argument.text t].mapM (Argument.valueIn Table.empty) = .ok [.text t] := rfl
  rw [Toolkit.exec_callWithin_composed h.no_conversion h.found hvalues, h.expand hinner t,
    Run.exec_bind_ok (Run.exec_lift_ok _ _)]

/-- Called with anything but one text, nothing is evaluated. -/
theorem Toolkit.HandsOn.exec_call_other (h : kit.HandsOn name composed inner)
    {arguments : List Argument} (hother : ∀ t, arguments ≠ [.text t]) (w : σ × List Invocation) :
    ∃ f, (kit.logged.callWithin (depth + 1) { name := name, arguments := arguments }).exec
      { world := w } = (.error (.fault f), { world := w }) := by
  apply Toolkit.exec_call_refused hother
  intro values hlength hvalues
  have hrefused : composed.expand values = .error (.wrongArity 1 values.length) := by
    simp [ComposedSkill.expand, h.placed, h.one_argument, hlength]
  rw [Toolkit.exec_callWithin_composed h.no_conversion h.found hvalues, hrefused]
  exact ⟨_, rfl⟩

/-- Called with a text at which nothing is cut, it does what the inner skill does, called with the
text as it stands. -/
theorem Toolkit.HandsOn.world_call_uncut (h : kit.HandsOn name composed inner)
    (hinner : isCallable inner.toList = true) {t : String}
    (ht : ∀ c ∈ t.toList, isCutting c = false) (w : σ × List Invocation) :
    ((kit.logged.callWithin (depth + 1) { name := name, arguments := [.text t] }).exec
      { world := w }).2.world =
        ((kit.logged.callWithin depth
          { name := inner, arguments := argumentsOf (t.toList ++ [')']) }).exec
            { world := w }).2.world := by
  obtain ⟨p, d, hread, hstatements, hword, hexpr⟩ := reads_as_call hinner ht
  rw [String.ofList_toList] at hexpr
  rw [h.exec_call_text depth hinner, Run.world_exec_bind (fun _ _ => rfl),
    world_runText_call hread hstatements hword hexpr]

/-- A text arrives at the skill exactly if it is the only argument, apart from blanks around it. -/
theorem Toolkit.TakesText.arrives_iff (h : kit.TakesText name skill) (arguments : List Argument)
    (w : σ) (s : String) :
    ((kit.logged.callWithin (depth + 1) { name := name, arguments := arguments }).exec
      { world := (w, []) }).2.world.2 = [{ skill := skill, arguments := [.text s] }] ↔
        ∃ t, arguments = [.text t] ∧ String.ofList (trim t.toList) = s := by
  by_cases htext : ∃ t, arguments = [.text t]
  · obtain ⟨t, rfl⟩ := htext
    rw [h.log_call depth t (w, [])]
    simp
  · obtain ⟨f, hexec⟩ := h.exec_call_other depth (not_exists.1 htext) (w, [])
    rw [hexec]
    constructor
    · intro hlog
      cases hlog
    · intro harrives
      obtain ⟨t, ht, -⟩ := harrives
      exact absurd ⟨t, ht⟩ htext

/-! ### The first call -/

/-- No text among the arguments has a character in it at which texts are cut. -/
def Invocation.Uncut (i : Invocation) : Prop :=
  ∀ t, .text t ∈ i.arguments → ∀ c ∈ t.toList, isCutting c = false

/-- The arguments of a call are made of the characters of its text. -/
theorem mem_of_only_argument {q : List Char} {t : String}
    (h : (splitArguments q).map Argument.ofText = [.text t]) {c : Char} (hc : c ∈ t.toList) :
    c ∈ q := by
  have hmem : .text t ∈ (splitArguments q).map Argument.ofText := by
    rw [h]
    exact List.mem_singleton_self _
  obtain ⟨piece, hpiece, hargument⟩ := List.mem_map.1 hmem
  exact mem_of_mem_splitArguments hpiece (mem_of_argument_ofText hargument hc)

/-- Called with a text in which nothing is cut, the skill is given a text in which nothing is cut.
-/
theorem Toolkit.TakesText.opens_uncut (h : kit.TakesText name skill) {q : List Char}
    (hq : ∀ c ∈ q, isCutting c = false) (w : σ) :
    OpensWith Invocation.Uncut ((kit.logged.callWithin (depth + 1)
      { name := name, arguments := (splitArguments q).map Argument.ofText }).exec
        { world := (w, []) }) := by
  by_cases htext : ∃ t, (splitArguments q).map Argument.ofText = [.text t]
  · obtain ⟨t, ht⟩ := htext
    rw [ht]
    refine .called (congrArg List.head? (h.log_call depth t (w, []))) ?_
    intro t' ht' c hc
    cases List.mem_singleton.1 ht'
    rw [String.toList_ofList] at hc
    exact hq c (mem_of_only_argument ht (mem_of_mem_trim hc))
  · obtain ⟨f, hexec⟩ := h.exec_call_other depth (not_exists.1 htext) (w, [])
    rw [hexec]
    exact .halted rfl

/-- **What a text opens with.**  A plan that is written as a call opens as calls of that name do
with arguments at which nothing is cut. -/
theorem opens_named (hfree : kit.EqualsFree) {call : Call → Run (σ × List Invocation) Result}
    (hcall : (kit.firstCallConduct hfree).CallsKeep call) (hname : isCallable name.toList = true)
    {P : Invocation → Prop} {w : σ}
    (hopens : ∀ q, (∀ c ∈ q, isCutting c = false) → OpensWith P ((call
      { name := name, arguments := (splitArguments q).map Argument.ofText }).exec
        { world := (w, []) }))
    {u : List Char} (hequals : '=' ∉ u) :
    OpensWith P (((Body.fresh.feed (name.toList ++ '(' :: (u ++ [')', ';']))).1.finish.run call
      .fresh).exec { world := (w, []) }) := by
  have hend : ∃ c ∈ u ++ [')', ';'], isStatementEnd c = true := ⟨')', by simp, rfl⟩
  have hequals' : '=' ∉ u ++ [')', ';'] := by simp [hequals]
  obtain ⟨d, rest, q, hstatements, hword, hq, hbegins⟩ := exists_first_call hname hend hequals'
  rw [String.ofList_toList] at hbegins
  exact (Body.wellRead_fresh.feed _).opens hcall hstatements hword hbegins (hopens q hq)

/-- So is the skill to which it is handed on. -/
theorem Toolkit.HandsOn.opens_uncut (hfree : kit.EqualsFree)
    (h : kit.HandsOn name composed inner) (hinner : kit.TakesText inner skill) {q : List Char}
    (hq : ∀ c ∈ q, isCutting c = false) (w : σ) :
    OpensWith Invocation.Uncut ((kit.logged.callWithin (depth + 2)
      { name := name, arguments := (splitArguments q).map Argument.ofText }).exec
        { world := (w, []) }) := by
  by_cases htext : ∃ t, (splitArguments q).map Argument.ofText = [.text t]
  · obtain ⟨t, ht⟩ := htext
    have hequals : '=' ∉ t.toList := by
      intro hmem
      cases hq '=' (mem_of_only_argument ht hmem)
    have hplan := opens_named hfree ((kit.firstCallConduct hfree).callsKeepWithin (depth + 1))
      hinner.callable (fun q hq => hinner.opens_uncut depth hq w) hequals
    rw [ht, h.exec_call_text (depth + 1) hinner.callable t (w, [])]
    exact (opens_runText (s := { world := (w, []) }) rfl hplan).map _
  · obtain ⟨f, hexec⟩ := h.exec_call_other (depth + 1) (not_exists.1 htext) (w, [])
    rw [hexec]
    exact .halted rfl

/-! ### Arrival -/

/-- A text that arrives has nothing in it at which it could have been cut. -/
theorem uncut_of_arrives (hfree : kit.EqualsFree) (hname : isCallable name.toList = true)
    {w : σ} (hopens : ∀ q, (∀ c ∈ q, isCutting c = false) →
      OpensWith Invocation.Uncut ((kit.logged.call
        { name := name, arguments := (splitArguments q).map Argument.ofText }).exec
          { world := (w, []) }))
    {s : String} (h : kit.callsOf w (quotedCall name s) =
      [{ skill := skill, arguments := [.text s] }]) :
    ∀ c ∈ s.toList, isCutting c = false := by
  have hhead := congrArg List.head? h
  by_cases hequals : '=' ∈ s.toList
  · -- No plan can make a first call with an equals sign.
    have hfirst := first_call_equalsFree kit hfree w _ hhead
    exact absurd hequals (hfirst _ (List.mem_singleton_self _) s rfl)
  · have hu : '=' ∉ '\'' :: (s.toList ++ ['\'']) := by simp [hequals]
    have hplan := opens_named hfree (kit.firstCallConduct hfree).callsKeep hname hopens hu
    rw [← toList_quotedCall] at hplan
    have huncut : Invocation.Uncut { skill := skill, arguments := [.text s] } :=
      hplan.of_head hhead
    exact huncut s (List.mem_singleton_self _)

/-- A text at which nothing is cut is the only argument of the only call, a variable if it begins
with a low line. -/
theorem callsOf_quotedCall (hname : isCallable name.toList = true) {s : String} (hs : Quotable s)
    (huncut : ∀ c ∈ s.toList, isCutting c = false) (w : σ) :
    kit.callsOf w (quotedCall name s) =
      ((kit.logged.call
        { name := name,
          arguments := [if s.toList.head? = some '_' then .variable s else .text s] }).exec
            { world := (w, []) }).2.world.2 := by
  have hu : ∀ c ∈ '\'' :: (s.toList ++ ['\'']), isCutting c = false := by
    intro c hc
    simp only [List.mem_cons, List.mem_append, List.not_mem_nil, or_false] at hc
    rcases hc with rfl | hc | rfl
    · rfl
    · exact huncut c hc
    · rfl
  obtain ⟨p, d, hread, hstatements, hword, hexpr⟩ := reads_as_call hname hu
  rw [argumentsOf_quoted hs.unquoted, String.ofList_toList, String.ofList_toList] at hexpr
  rw [Toolkit.callsOf, toList_quotedCall, hread, Body.world_run_call hstatements hword hexpr]

/-- A bare text is one argument exactly if no comma stands before its first opening bracket. -/
theorem only_argument_iff {s : String} (hs : Quotable s) (hsheltered : Sheltered s) :
    (∃ t, argumentsOf (s.toList ++ [')']) = [.text t] ∧ String.ofList (trim t.toList) = s) ↔
      Undivided s := by
  have hbracket : ')' ∉ s.toList := by
    intro hmem
    cases hsheltered.1 _ hmem
  have hne : s.toList ≠ [] := by
    intro hnil
    exact hs.nonempty (String.toList_inj.1 hnil)
  rw [argumentsOf_bare hs.unquoted hs.trimmed]
  constructor
  · intro h hcomma
    obtain ⟨t, ht, htrim⟩ := h
    obtain ⟨piece, hpiece, hargument⟩ := List.map_eq_singleton_iff.1 ht
    apply not_mem_of_divided hbracket hcomma List.not_mem_nil hpiece
    have hmem : ',' ∈ s.toList := (List.takeWhile_sublist _).subset hcomma
    rw [← htrim, String.toList_ofList] at hmem
    exact mem_of_argument_ofText hargument (mem_of_mem_trim hmem)
  · intro hundivided
    have hpieces : splitArgumentsFrom 0 [] s.toList = [s.toList] := by
      rw [splitArgumentsFrom_undivided hbracket hundivided, List.nil_append, splitArgumentsFrom,
        hs.trimmed]
      simp [hne]
    have hargument : Argument.ofText s.toList = .text s := by
      rw [Argument.ofText, hs.trimmed, trimWhere_eq_self hs.unquoted, if_neg hsheltered.2,
        String.ofList_toList]
    refine ⟨s, ?_, ?_⟩
    · rw [hpieces, List.map_singleton, hargument]
    · rw [hs.trimmed, String.ofList_toList]

variable (kit) in
/-- Calls may be nested at least twice. -/
theorem Toolkit.exists_call_eq : ∃ depth, kit.call = kit.callWithin (depth + 2) :=
  ⟨238, rfl⟩

/-- A quoted text arrives at a basic skill exactly if it is sheltered. -/
theorem Toolkit.TakesText.quoted_arrives_iff (h : kit.TakesText name skill)
    (hfree : kit.EqualsFree) (w : σ) {s : String} (hs : Quotable s) :
    kit.callsOf w (quotedCall name s) = [{ skill := skill, arguments := [.text s] }] ↔
      Sheltered s := by
  obtain ⟨depth, hcall⟩ := kit.logged.exists_call_eq
  have harrives (huncut : ∀ c ∈ s.toList, isCutting c = false) :
      kit.callsOf w (quotedCall name s) = [{ skill := skill, arguments := [.text s] }] ↔
        s.toList.head? ≠ some '_' := by
    rw [callsOf_quotedCall h.callable hs huncut, hcall, h.arrives_iff]
    by_cases hline : s.toList.head? = some '_'
    · simp [hline]
    · simp [hline, hs.trimmed]
  constructor
  · intro hlog
    have huncut : ∀ c ∈ s.toList, isCutting c = false := by
      apply uncut_of_arrives hfree h.callable _ hlog
      intro q hq
      rw [hcall]
      exact h.opens_uncut (depth + 1) hq w
    exact ⟨huncut, (harrives huncut).1 hlog⟩
  · intro hsheltered
    exact (harrives hsheltered.1).2 hsheltered.2

/-- It arrives through a composed skill exactly if, besides, no comma divides it. -/
theorem Toolkit.HandsOn.quoted_arrives_iff (h : kit.HandsOn name composed inner)
    (hinner : kit.TakesText inner skill) (hfree : kit.EqualsFree) (w : σ) {s : String}
    (hs : Quotable s) :
    kit.callsOf w (quotedCall name s) = [{ skill := skill, arguments := [.text s] }] ↔
      Sheltered s ∧ Undivided s := by
  obtain ⟨depth, hcall⟩ := kit.logged.exists_call_eq
  -- A sheltered text comes to the inner skill without its quotation marks.
  have harrives (hsheltered : Sheltered s) :
      kit.callsOf w (quotedCall name s) = [{ skill := skill, arguments := [.text s] }] ↔
        Undivided s := by
    rw [callsOf_quotedCall h.callable hs hsheltered.1, if_neg hsheltered.2, hcall,
      h.world_call_uncut (depth + 1) hinner.callable hsheltered.1, hinner.arrives_iff,
      only_argument_iff hs hsheltered]
  constructor
  · intro hlog
    have huncut : ∀ c ∈ s.toList, isCutting c = false := by
      apply uncut_of_arrives hfree h.callable _ hlog
      intro q hq
      rw [hcall]
      exact h.opens_uncut depth hfree hinner hq w
    have hline : s.toList.head? ≠ some '_' := by
      intro hline
      have hother : ∀ t, [Argument.variable s] ≠ [.text t] := by simp
      obtain ⟨f, hexec⟩ := h.exec_call_other (depth + 1) hother (w, [])
      rw [callsOf_quotedCall h.callable hs huncut, if_pos hline, hcall, hexec] at hlog
      cases hlog
    exact ⟨⟨huncut, hline⟩, (harrives ⟨huncut, hline⟩).1 hlog⟩
  · intro hboth
    exact (harrives hboth.1).2 hboth.2

end

/-- **Which quoted texts arrive.**  Call a basic skill with one quoted text that is not empty, has
no quotation marks in it and no blanks around it.  Reading and evaluating this plan makes exactly
one call, with exactly this text, if and only if the text has none of the characters at which plans
are cut, `;`, `}`, `)`, `=`, `+`, `-`, `*` and `/`, and does not begin with a low line.  Through a
composed skill that hands its argument on, it arrives if and only if, besides, no comma stands
before its first opening bracket. -/
theorem quoted_text_arrives_iff (kit : Toolkit σ) (hfree : kit.EqualsFree) (world : σ)
    {name : String} {skill : BasicSkill} (hskill : kit.TakesText name skill) {s : String}
    (hs : Quotable s) :
    (kit.callsOf world (quotedCall name s) = [{ skill := skill, arguments := [.text s] }] ↔
      Sheltered s) ∧
    ∀ outer composed, kit.HandsOn outer composed name →
      (kit.callsOf world (quotedCall outer s) = [{ skill := skill, arguments := [.text s] }] ↔
        Sheltered s ∧ Undivided s) := by
  refine ⟨hskill.quoted_arrives_iff hfree world hs, ?_⟩
  intro outer composed houter
  exact houter.quoted_arrives_iff hskill hfree world hs

/-- A skill that takes a text. -/
def logging : BasicSkill :=
  { name := "log", abbreviation := "l", parameters := [{ name := "text", kind := .text }] }

/-- A composed skill that hands its argument on to it. -/
def saying : ComposedSkill :=
  { name := "say"
    abbreviation := "s"
    definition := "log($1);"
    parameters := [{ name := "$1", kind := .text }]
    placed := true }

/-- A robot with these two skills. -/
def messenger : Toolkit Unit where
  low := .ofList [("log", .basic logging)]
  high := .ofList [("say", .composed saying)]
  perform _ _ world := (.ok .none, world)

/-- The messenger logs texts. -/
theorem messenger_takesText : messenger.TakesText "log" logging where
  callable := by decide
  no_conversion := by decide
  found := rfl
  runs := rfl
  one_text := ⟨_, rfl, rfl⟩

/-- And says them by logging them. -/
theorem messenger_handsOn : messenger.HandsOn "say" saying "log" where
  callable := by decide
  no_conversion := by decide
  found := rfl
  placed := rfl
  one_argument := rfl
  definition := rfl

theorem messenger_equalsFree : messenger.EqualsFree := by
  have hone {α : Type} (key name : String) (v : α) :
      (Table.ofList [(key, v)]).find? name = if name = key then some v else none := by
    by_cases hname : name = key
    · rw [if_pos hname, hname]
      exact Table.find?_insert_self Table.empty key v
    · rw [if_neg hname]
      exact Table.find?_insert_of_ne Table.empty v hname
  have hfind (name : String) (callee : Callee) (h : messenger.find? name = some callee) :
      callee = .basic logging ∨ callee = .composed saying := by
    simp only [Toolkit.find?, Skills.lookup, messenger, hone, Table.find?_empty] at h
    by_cases hlog : name = "log"
    · simp only [hlog, if_true] at h
      exact .inl (Option.some.inj h).symm
    · by_cases hsay : name = "say"
      · simp only [hsay, String.reduceEq, if_false, if_true] at h
        exact .inr (Option.some.inj h).symm
      · simp [hlog, hsay] at h
  constructor
  · intro name s h
    rcases hfind name _ h with h | h
    · cases h
    · cases h
      decide
  · intro name s arguments text h
    rcases hfind name _ h with h | h <;> cases h

/-- A question mark and a comma behind an opening bracket do no harm. -/
theorem quoted_text_arrives_iff_messenger :
    messenger.EqualsFree ∧ messenger.TakesText "log" logging ∧
      messenger.HandsOn "say" saying "log" ∧ Quotable "where? (red, blue" ∧
      messenger.callsOf () (quotedCall "log" "where? (red, blue") =
        [{ skill := logging, arguments := [.text "where? (red, blue"] }] ∧
      messenger.callsOf () (quotedCall "say" "where? (red, blue") =
        [{ skill := logging, arguments := [.text "where? (red, blue"] }] := by
  have hquotable : Quotable "where? (red, blue" := ⟨by decide, by simp [isQuoteMark], by decide⟩
  have harrives :=
    quoted_text_arrives_iff messenger messenger_equalsFree () messenger_takesText hquotable
  have hsheltered : Sheltered "where? (red, blue" := by decide
  have hundivided : Undivided "where? (red, blue" := by decide
  exact ⟨messenger_equalsFree, messenger_takesText, messenger_handsOn, hquotable,
    harrives.1.2 hsheltered, (harrives.2 _ _ messenger_handsOn).2 ⟨hsheltered, hundivided⟩⟩

/-- A hyphen is taken for a sign of arithmetic, so the text does not arrive. -/
theorem hyphen_cuts_quoted_text :
    Quotable "T-shirt" ∧ messenger.TakesText "log" logging ∧
      messenger.HandsOn "say" saying "log" ∧
      messenger.callsOf () (quotedCall "log" "T-shirt") ≠
        [{ skill := logging, arguments := [.text "T-shirt"] }] ∧
      messenger.callsOf () (quotedCall "say" "T-shirt") ≠
        [{ skill := logging, arguments := [.text "T-shirt"] }] := by
  have hquotable : Quotable "T-shirt" := ⟨by decide, by simp [isQuoteMark], by decide⟩
  refine ⟨hquotable, messenger_takesText, messenger_handsOn, ?_, ?_⟩
  · rw [ne_eq, messenger_takesText.quoted_arrives_iff messenger_equalsFree () hquotable]
    decide
  · rw [ne_eq, messenger_handsOn.quoted_arrives_iff messenger_takesText messenger_equalsFree ()
      hquotable]
    decide

end DronePilot.Plan
