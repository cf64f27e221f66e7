import DronePilot.Proofs.Agreement
import DronePilot.Proofs.Watching

/-!
# Evaluating a plan again

Simple statements lower their marks whenever they are evaluated.  Blocks never do: once an
evaluation has stopped in a block, by a return or because something asked for a new plan, the block
and its body stay marked.  The next evaluation goes its way as that of a fresh copy would, up to the
first moment at which it leaves a marked block behind; there it stops as if something had returned.

* `Statement.Alike` — the invariant on the marks: those of the blocks stay as they are unless the
  evaluation stops.
* `Tracks` — an evaluation with marks against the watched one without.
* `Statement.Whole.tracked`, `runAll_tracks` — one case for each kind of statement, and sequences.
* `Body.Evaluated` — what any number of evaluations leaves of the marks.
-/

namespace DronePilot.Plan

variable {σ α β γ δ : Type}

/-! ### Marks that stay -/

mutual

/-- The blocks of a statement are marked as they were, and each together with its body. -/
def Statement.Alike : Statement → Mark → Mark → Prop
  | .block _ _ ⟨statements, _, _, _⟩, m₀, m =>
    m.returned = m₀.returned ∧ m.body.returned = m₀.returned ∧
      alikeAll statements m₀.body.inner m.body.inner
  | .action _, _, _ | .code _, _, _ | .condition _, _, _ | .count _, _, _ => True

/-- The blocks of statements in order are marked as they were. -/
def alikeAll : List Statement → List Mark → List Mark → Prop
  | [], _, _ => True
  | s :: rest, marks₀, marks =>
    s.Alike (marks₀.headD .fresh) (marks.headD .fresh) ∧ alikeAll rest marks₀.tail marks.tail

end

/-- Statements are marked as they were if the first one and the others are. -/
theorem alikeAll_cons {s : Statement} {rest : List Statement} {marks₀ marks : List Mark} :
    alikeAll (s :: rest) marks₀ marks ↔
      s.Alike (marks₀.headD .fresh) (marks.headD .fresh) ∧
        alikeAll rest marks₀.tail marks.tail := by
  rw [alikeAll]

/-- Blocks have marks alike if they have returned alike, and their bodies too. -/
theorem Statement.alike_block {d : Draft} {head : Head} {body : Program} {m₀ m : Mark} :
    (Statement.block d head body).Alike m₀ m ↔
      m.returned = m₀.returned ∧ m.body.returned = m₀.returned ∧
        alikeAll body.statements m₀.body.inner m.body.inner := by
  rw [Statement.Alike]

/-- Marks that are alike others are alike themselves, if this is so for each statement. -/
theorem alikeAll_self {statements : List Statement}
    (h : ∀ t ∈ statements, ∀ m₀ m, t.Alike m₀ m → t.Alike m m) {marks₀ marks : List Mark}
    (halike : alikeAll statements marks₀ marks) : alikeAll statements marks marks := by
  induction statements generalizing marks₀ marks with
  | nil => rw [alikeAll]; trivial
  | cons t rest ih =>
      obtain ⟨ht, hrest⟩ := List.forall_mem_cons.1 h
      rw [alikeAll] at halike ⊢
      exact ⟨ht _ _ halike.1, ih hrest halike.2⟩

/-- So it is for a whole statement. -/
theorem Statement.Whole.alike_self {t : Statement} (h : t.Whole) {m₀ m : Mark}
    (halike : t.Alike m₀ m) : t.Alike m m := by
  induction h generalizing m₀ m with
  | action d => rw [Statement.Alike]; trivial
  | @block d head body hlisted hfinished ih =>
      rw [Statement.alike_block] at halike ⊢
      obtain ⟨hreturned, hbody, hinner⟩ := halike
      exact ⟨rfl, hbody.trans hreturned.symm, alikeAll_self (fun t ht _ _ => ih t ht) hinner⟩

/-- Statements without marks are alike fresh ones. -/
theorem alikeAll_nil {statements : List Statement}
    (h : ∀ t ∈ statements, t.Alike .fresh .fresh) : alikeAll statements [] [] := by
  induction statements with
  | nil => rw [alikeAll]; trivial
  | cons t rest ih =>
      obtain ⟨ht, hrest⟩ := List.forall_mem_cons.1 h
      rw [alikeAll]
      exact ⟨ht, ih hrest⟩

/-- A fresh mark is alike itself. -/
theorem Statement.Whole.alike_fresh {t : Statement} (h : t.Whole) : t.Alike .fresh .fresh := by
  induction h with
  | action d => rw [Statement.Alike]; trivial
  | @block d head body hlisted hfinished ih =>
      rw [Statement.alike_block]
      exact ⟨rfl, rfl, alikeAll_nil ih⟩

/-! ### Evaluating with marks -/

/-- What is cut off with a result comes to it, or halts when the result is to be recorded. -/
def CutOff (ends : α → Result → Prop) (r : Result) : Except Halt α → Prop
  | .ok a => ends a r
  | .error h => h = .fault .unwritable ∧ r.value.isWritable = false

/-- `Tracks rel ends` relates what a computation with marks comes to and what watching shows.  No
marked block is left behind, and the two agree; or the computation is cut off where the first one
is. -/
inductive Tracks (rel : α → Bool → β → Prop) (ends : α → Result → Prop) :
    Except Halt α × Scope σ → Watched σ β → Prop
  | whole {x : Except Halt α × Scope σ} {w : Watched σ β} (hpassed : w.passed = none)
      (h : Agree rel x (w.outcome, w.setting)) : Tracks rel ends x w
  | cut {x : Except Halt α × Scope σ} {w : Watched σ β} {r : Result}
      (hpassed : w.passed = some ⟨r, x.2.setting⟩) (h : CutOff ends r x.1) : Tracks rel ends x w

section

variable {rel : α → Bool → β → Prop} {ends : α → Result → Prop} {rel' : γ → Bool → δ → Prop}
  {ends' : γ → Result → Prop}

/-- A value is tracked where it agrees with what is meant. -/
theorem Tracks.value {a : α} {b : β} {s : Scope σ} (h : rel a s.returned b) :
    Tracks rel ends (.ok a, s) ⟨.ok b, s.setting, none⟩ :=
  .whole rfl (.value h)

/-- What agrees with an act is tracked by it, since an act leaves nothing behind. -/
theorem Agree.tracks {x : Run σ α} {y : Act σ β} {s : Scope σ}
    (h : Agree rel (x.exec s) (y.exec s.setting)) :
    Tracks rel ends (x.exec s) (Watch.act y s.setting) :=
  .whole rfl h

/-- One after the other: what ends at a marked block ends there. -/
theorem Tracks.bind {x : Run σ α} {y : Watch σ β} {f : α → Run σ γ} {g : β → Watch σ δ}
    {s : Scope σ} (h : Tracks rel ends (x.exec s) (y s.setting))
    (hnext : ∀ a b (s' : Scope σ), rel a s'.returned b →
      Tracks rel' ends' ((f a).exec s') (g b s'.setting))
    (hcut : ∀ a r (s' : Scope σ), ends a r →
      ((f a).exec s').2.setting = s'.setting ∧ CutOff ends' r ((f a).exec s').1) :
    Tracks rel' ends' ((x >>= f).exec s) ((y >>= g) s.setting) := by
  change Tracks rel' ends' _ (Watch.andThen y g s.setting)
  rw [Run.exec_bind]
  unfold Watch.andThen
  generalize hx : x.exec s = outcome at h
  generalize hy : y s.setting = watched at h
  obtain ⟨outcome', setting', passed⟩ := watched
  cases h with
  | whole hpassed h =>
      obtain rfl : passed = none := hpassed
      cases h with
      | value hrel => exact hnext _ _ _ hrel
      | halt f s' => exact .whole rfl (.halt f s')
  | @cut r hpassed h =>
      obtain ⟨value, s'⟩ := outcome
      obtain rfl : passed = some ⟨r, s'.setting⟩ := hpassed
      cases value with
      | ok a =>
          obtain ⟨hsetting, hends⟩ := hcut a r s' h
          refine .cut (r := r) ?_ hends
          rw [hsetting]
          cases outcome' <;> rfl
      | error f => cases outcome' <;> exact .cut rfl h

/-- A value is put into another form on the side with marks. -/
theorem Tracks.map_left {rel' : γ → Bool → β → Prop} {x : Run σ α} {f : α → γ} {s : Scope σ}
    {w : Watched σ β} (h : Tracks rel ends (x.exec s) w)
    (hrel : ∀ a flag b, rel a flag b → rel' (f a) flag b)
    (hends : ∀ a r, ends a r → ends' (f a) r) :
    Tracks rel' ends' ((x >>= fun a => pure (f a)).exec s) w := by
  rw [Run.exec_bind]
  generalize x.exec s = outcome at h
  cases h with
  | whole hpassed h =>
      refine .whole hpassed ?_
      obtain ⟨outcome', setting', passed⟩ := w
      cases h with
      | value h => exact .value (hrel _ _ _ h)
      | halt f s' => exact .halt f s'
  | cut hpassed h =>
      obtain ⟨value, s'⟩ := outcome
      cases value with
      | ok a => exact .cut hpassed (hends _ _ h)
      | error f => exact .cut hpassed h

end

/-- A record is the same, watched or not, and leaves no block behind. -/
theorem record_tracks (v : Value) (s : Scope σ) :
    Tracks (fun _ _ _ => True) (fun _ _ => False) ((Run.record [v]).exec s)
      (Watch.record v s.setting) :=
  ((agree_lift (recording [v]) s).mono fun _ _ _ _ => trivial).tracks

/-- Evaluating the statement ends where the first marked block is left behind, and otherwise has its
meaning.  The marks stay as they were unless it stops. -/
def Statement.Tracked (call : Call → Run σ Result) (meant : Call → Act σ Result)
    (t : Statement) : Prop :=
  ∀ (m₀ m : Mark) (s : Scope σ), t.Alike m₀ m →
    Tracks (fun x _ e => e.Accounts x.1 (x.1.replan || x.2.returned) (t.Alike m₀ x.2) ∧
        t.Alike x.2 x.2)
      (fun x r => x.1 = r ∧ x.2.returned = true ∧ t.Alike x.2 x.2)
      ((t.run call m).exec s) (t.watched meant m₀ s.setting)

section

variable {call : Call → Run σ Result} {meant : Call → Act σ Result}

/-- Statements in order are tracked if each of them is, and keep marks that are alike. -/
theorem runAll_tracks {statements : List Statement} (hwhole : ∀ t ∈ statements, t.Whole)
    (hstatements : ∀ t ∈ statements, t.Tracked call meant) {marks₀ marks : List Mark}
    (hmarks : alikeAll statements marks₀ marks) {last : Result} (hlast : last.replan = false)
    (s : Scope σ) :
    Tracks (fun p _ e => e.Accounts p.result p.stopped (alikeAll statements marks₀ p.marks) ∧
        alikeAll statements p.marks p.marks)
      (fun p r => p.result = r ∧ p.stopped = true ∧ r.value.isWritable = true ∧
        alikeAll statements p.marks p.marks)
      ((runAll call statements marks last).exec s)
      (watchedAll meant statements marks₀ last s.setting) := by
  induction statements generalizing marks₀ marks last s with
  | nil =>
      rw [runAll_nil, watchedAll]
      refine .value ⟨⟨rfl, rfl, fun _ => ⟨hlast, hmarks⟩⟩, ?_⟩
      rw [alikeAll]
      trivial
  | cons t rest ih =>
      obtain ⟨ht, hrest⟩ := List.forall_mem_cons.1 hstatements
      obtain ⟨-, hwhole'⟩ := List.forall_mem_cons.1 hwhole
      obtain ⟨hhead, htail⟩ := alikeAll_cons.1 hmarks
      have hself : alikeAll rest marks.tail marks.tail :=
        alikeAll_self (fun t ht _ _ => (hwhole' t ht).alike_self) htail
      rw [runAll_cons, watchedAll]
      refine (ht _ _ s hhead).bind ?_ ?_
      · rintro ⟨r, m⟩ e s₁ ⟨⟨hresult, hstops, honward⟩, hmark⟩
        obtain rfl : r = e.result := hresult
        cases hgoing : e.result.replan || m.returned with
        | true =>
            have hend : e.stops = true := hstops.symm.trans hgoing
            simp only [hgoing, hend, if_true]
            refine (record_tracks e.result.value s₁).bind ?_ (fun _ _ _ h => h.elim)
            rintro _ _ s₂ -
            exact .value ⟨⟨rfl, hend.symm, Bool.noConfusion⟩, alikeAll_cons.2 ⟨hmark, hself⟩⟩
        | false =>
            have hend : e.stops = false := hstops.symm.trans hgoing
            obtain ⟨hreplan, hkept⟩ := honward hgoing
            simp only [hgoing, hend, Bool.false_eq_true, if_false]
            refine (ih hwhole' hrest htail hreplan s₁).map_left ?_ ?_
            · rintro p _ e' ⟨⟨hresult', hstops', honward'⟩, hmarks'⟩
              refine ⟨⟨hresult', hstops', fun hstopped => ?_⟩, alikeAll_cons.2 ⟨hmark, hmarks'⟩⟩
              obtain ⟨hreplan', hkept'⟩ := honward' hstopped
              exact ⟨hreplan', alikeAll_cons.2 ⟨hkept, hkept'⟩⟩
            · rintro p r ⟨hresult', hstopped, hwritable, hmarks'⟩
              exact ⟨hresult', hstopped, hwritable, alikeAll_cons.2 ⟨hmark, hmarks'⟩⟩
      · rintro ⟨r, m⟩ _ s₁ ⟨rfl, hreturned, hmark⟩
        have hreturned : m.returned = true := hreturned
        simp only [hreturned, Bool.or_true, if_true]
        -- The result with which the block was left behind is recorded here.
        cases hwritable : r.value.isWritable with
        | true =>
            rw [Run.exec_bind_ok (Run.exec_record (by simpa using hwritable) s₁), Run.exec_pure]
            exact ⟨rfl, rfl, rfl, hwritable, alikeAll_cons.2 ⟨hmark, hself⟩⟩
        | false =>
            rw [Run.exec_bind_error (Run.exec_record_error List.mem_cons_self hwritable s₁)]
            exact ⟨rfl, rfl, hwritable⟩

/-- The body of a block ends where a marked block is left behind: in it, or the block itself. -/
theorem Body.run_tracks {body : Program} (hfinished : body.finished = true)
    (hwhole : ∀ t ∈ body.statements, t.Whole)
    (hstatements : ∀ t ∈ body.statements, t.Tracked call meant) {marked : Bool}
    {marks₀ : List Mark} {trail : Trail Mark} (hmarked : trail.returned = marked)
    (hmarks : alikeAll body.statements marks₀ trail.inner) (s : Scope σ) :
    Tracks (fun x _ e => e.Accounts x.1 x.2.returned
          (x.2.returned = marked ∧ alikeAll body.statements marks₀ x.2.inner) ∧
        alikeAll body.statements x.2.inner x.2.inner)
      (fun x r => x.1 = r ∧ x.2.returned = true ∧ alikeAll body.statements x.2.inner x.2.inner)
      ((body.run call trail).exec s)
      (Watch.through marked (watchedAll meant body.statements marks₀ .none) s.setting) := by
  rw [Body.run, Watch.through]
  refine (runAll_tracks hwhole hstatements hmarks rfl s).bind ?_ ?_
  · rintro p e s₁ ⟨⟨hresult, hstops, honward⟩, hself⟩
    cases hstopped : p.stopped with
    | true =>
        rw [hstopped] at hstops
        simp only [Progress.conclude, hstopped, if_true, ← hstops]
        exact .value ⟨⟨hresult, hstops, Bool.noConfusion⟩, hself⟩
    | false =>
        obtain ⟨hreplan, hkept⟩ := honward hstopped
        rw [hstopped] at hstops
        simp only [Progress.conclude, hstopped, hfinished, Bool.false_eq_true, if_false, if_true,
          ← hstops]
        cases marked with
        | true => exact .cut rfl ⟨hresult, hmarked, hself⟩
        | false =>
            exact .value
              ⟨⟨hresult, hmarked.trans hstops, fun _ => ⟨hreplan, hmarked, hkept⟩⟩, hself⟩
  · rintro p r s₁ ⟨hresult, hstopped, -, hself⟩
    simp only [Progress.conclude, hstopped, if_true]
    exact ⟨rfl, hresult, rfl, hself⟩

/-- Rounds end where a marked block is left behind: in one of them, or with one of them. -/
theorem repeatBody_tracks {once : Trail Mark → Run σ (Result × Trail Mark)}
    {watchOnce : Watch σ Ending} {marked : Bool} {K S : Trail Mark → Prop}
    (honce : ∀ (trail : Trail Mark) (s : Scope σ), trail.returned = marked → K trail →
      Tracks (fun x _ e => e.Accounts x.1 x.2.returned (x.2.returned = marked ∧ K x.2) ∧ S x.2)
        (fun x r => x.1 = r ∧ x.2.returned = true ∧ S x.2)
        ((once trail).exec s) (watchOnce s.setting))
    (n : Nat) {last : Result} (hlast : last.replan = false) {trail : Trail Mark}
    (hmarked : trail.returned = marked) (hkept : K trail) (hsound : S trail) (s : Scope σ) :
    Tracks (fun x _ e => e.Accounts x.1 x.2.2 (x.2.1.returned = marked ∧ K x.2.1) ∧
        (x.2.2 = true → x.2.1.returned = true) ∧ S x.2.1)
      (fun x r => x.1 = r ∧ x.2.2 = true ∧ x.2.1.returned = true ∧ S x.2.1)
      ((repeatBody once n last trail).exec s) (Watch.rounds watchOnce n last s.setting) := by
  induction n generalizing last trail s with
  | zero => exact .value ⟨⟨rfl, rfl, fun _ => ⟨hlast, hmarked, hkept⟩⟩, Bool.noConfusion, hsound⟩
  | succ n ih =>
      rw [repeatBody, Watch.rounds]
      refine (record_tracks last.value s).bind ?_ (fun _ _ _ h => h.elim)
      rintro _ _ s -
      refine (honce trail s hmarked hkept).bind ?_ ?_
      · rintro ⟨r, t⟩ e s₁ ⟨⟨hresult, hstops, honward⟩, hsound'⟩
        obtain rfl : r = e.result := hresult
        have hstops : t.returned = e.stops := hstops
        cases hend : e.stops with
        | true =>
            rw [hend] at hstops
            simp only [hstops, Bool.or_true, if_true]
            exact .value ⟨⟨rfl, hend.symm, Bool.noConfusion⟩, fun _ => hstops, hsound'⟩
        | false =>
            rw [hend] at hstops
            obtain ⟨hreplan, hmarked', hkept'⟩ := honward hstops
            have hreplan : e.result.replan = false := hreplan
            simp only [hstops, hreplan, Bool.or_self, Bool.false_eq_true, if_false]
            exact ih hreplan hmarked' hkept' hsound' s₁
      · rintro ⟨r, t⟩ _ s₁ ⟨rfl, hreturned, hsound'⟩
        have hreturned : t.returned = true := hreturned
        simp only [hreturned, Bool.or_true, if_true]
        exact ⟨rfl, rfl, rfl, hreturned, hsound'⟩

/-- A block that is marked as its body is. -/
theorem Statement.alike_mk {d : Draft} {head : Head} {body : Program} {m₀ : Mark} {marked : Bool}
    {trail : Trail Mark} (hmarked : marked = m₀.returned) (hreturned : trail.returned = m₀.returned)
    (hinner : alikeAll body.statements m₀.body.inner trail.inner) :
    (Statement.block d head body).Alike m₀ (.mk marked trail) :=
  Statement.alike_block.2 ⟨hmarked, hreturned, hinner⟩

/-- A block ends as its body does, and is marked as that is. -/
theorem Ending.Accounts.marked {d : Draft} {head : Head} {body : Program} {m₀ : Mark} {e : Ending}
    {r : Result} {trail : Trail Mark}
    (h : e.Accounts r trail.returned
      (trail.returned = m₀.returned ∧ alikeAll body.statements m₀.body.inner trail.inner)) :
    e.Accounts r (r.replan || (Mark.mk trail.returned trail).returned)
      ((Statement.block d head body).Alike m₀ (.mk trail.returned trail)) := by
  have hstopped : (r.replan || (Mark.mk trail.returned trail).returned) = trail.returned :=
    h.replan_or
  refine ⟨h.result, hstopped.trans h.stops, fun hgoing => ?_⟩
  obtain ⟨hreplan, hreturned, hinner⟩ := h.onward (hstopped.symm.trans hgoing)
  exact ⟨hreplan, Statement.alike_mk hreturned hreturned hinner⟩

/-- Whatever ends with a block being left behind is marked as its body is. -/
theorem Statement.mark_of_body {m₀ m : Mark} {r : Result} {trail : Trail Mark}
    (hmarked : m.returned = m₀.returned)
    (h : trail.returned = false → r.replan = false ∧ trail.returned = m₀.returned) :
    (m.returned || r.replan || trail.returned) = trail.returned := by
  cases hreturned : trail.returned with
  | true => simp
  | false =>
      obtain ⟨hreplan, hunmarked⟩ := h hreturned
      simp [hmarked, ← hunmarked, hreplan, hreturned]

/-- A conditional ends where a marked block is left behind: in its body, or the conditional itself,
whose mark is read also if the body is left out. -/
theorem Statement.tracked_conditional (hcall : CallsAgree call meant) (d : Draft) {body : Program}
    (hfinished : body.finished = true) (hwhole : ∀ t ∈ body.statements, t.Whole)
    (htracked : ∀ t ∈ body.statements, t.Tracked call meant) :
    (Statement.block d .conditional body).Tracked call meant := by
  intro m₀ m s halike
  have hself := (Statement.Whole.block hwhole hfinished).alike_self halike
  obtain ⟨hmarked, hbody, hinner⟩ := Statement.alike_block.1 halike
  rw [Statement.run_conditional, Statement.watched_conditional]
  have hcondition : Tracks (fun v _ v' => v.Same v') (fun _ _ => False)
      (((Condition.ofText d.text.toList).eval call).exec s)
      (Watch.act ((Condition.ofText d.text.toList).meaning recording meant) s.setting) :=
    ((Condition.ofText d.text.toList).agree hcall s).tracks
  refine hcondition.bind ?_ (fun _ _ _ h => h.elim)
  rintro v _ s₁ ⟨rfl, hreplan⟩
  cases v with
  | replan r =>
      have hreplan := hreplan r rfl
      refine .value ⟨⟨rfl, by simp [hreplan], fun hgoing => ?_⟩, hself⟩
      simp [hreplan] at hgoing
  | holds b =>
      cases b with
      | false =>
          cases hm : m₀.returned with
          | true => exact .cut rfl ⟨rfl, hmarked.trans hm, hself⟩
          | false =>
              refine .value ⟨⟨rfl, ?_, fun _ => ⟨rfl, halike⟩⟩, hself⟩
              simp [hmarked.trans hm, Result.none]
      | true =>
          simp only
          refine (Body.run_tracks hfinished hwhole htracked hbody hinner s₁).map_left ?_ ?_
          · rintro ⟨r, trail⟩ _ e ⟨hends, hsound⟩
            rw [Statement.mark_of_body hmarked fun h =>
              ⟨(hends.onward h).1, (hends.onward h).2.1⟩]
            exact ⟨hends.marked, Statement.alike_mk rfl rfl hsound⟩
          · rintro ⟨r, trail⟩ _ ⟨hresult, hreturned, hsound⟩
            rw [Statement.mark_of_body hmarked fun h =>
              absurd (hreturned.symm.trans h) Bool.noConfusion]
            exact ⟨hresult, hreturned, Statement.alike_mk rfl rfl hsound⟩

/-- A loop ends where a marked block is left behind: in one of its rounds, after one of them, or
after the last. -/
theorem Statement.tracked_loop (d : Draft) (n : Int) {body : Program}
    (hfinished : body.finished = true) (hwhole : ∀ t ∈ body.statements, t.Whole)
    (htracked : ∀ t ∈ body.statements, t.Tracked call meant) :
    (Statement.block d (.loop n) body).Tracked call meant := by
  intro m₀ m s halike
  have hself : (Statement.block d (.loop n) body).Alike m m :=
    (Statement.Whole.block hwhole hfinished).alike_self halike
  obtain ⟨hmarked, hbody, hinner⟩ := Statement.alike_block.1 halike
  have honce (trail : Trail Mark) (s : Scope σ) (hreturned : trail.returned = m₀.returned)
      (hkept : alikeAll body.statements m₀.body.inner trail.inner) :=
    Body.run_tracks hfinished hwhole htracked hreturned hkept s
  rw [Statement.run_loop, Statement.watched_loop, Watch.through]
  refine (repeatBody_tracks
    (K := fun trail => alikeAll body.statements m₀.body.inner trail.inner)
    (S := fun trail => alikeAll body.statements trail.inner trail.inner)
    honce n.toNat rfl hbody hinner (Statement.alike_block.1 hself).2.2 s).bind ?_ ?_
  · rintro ⟨r, trail, stopped⟩ e s₁ ⟨hends, hreturned, hsound⟩
    cases stopped with
    | true =>
        have hreturned : trail.returned = true := hreturned rfl
        have hstops : e.stops = true := hends.stops.symm
        simp only [hstops, if_true, Bool.or_true]
        refine .value ⟨⟨hends.result, ?_, fun hgoing => ?_⟩,
          Statement.alike_mk rfl hreturned hsound⟩
        · simp [Mark.returned, hstops]
        · simp [Mark.returned] at hgoing
    | false =>
        obtain ⟨hreplan, hreturned, hkept⟩ := hends.onward rfl
        have hstops : e.stops = false := hends.stops.symm
        have hreturned : trail.returned = m₀.returned := hreturned
        have hreplan : r.replan = false := hreplan
        simp only [hstops, Bool.false_eq_true, if_false, Bool.or_false, hmarked]
        cases hm : m₀.returned with
        | true =>
            refine .cut rfl ⟨hends.result, rfl, ?_⟩
            exact Statement.alike_mk rfl (hreturned.trans hm) hsound
        | false =>
            refine .value ⟨⟨hends.result, ?_, fun _ => ⟨hreplan, ?_⟩⟩, ?_⟩
            · simp [Mark.returned, hreplan, hstops]
            · exact Statement.alike_mk hm.symm hreturned hkept
            · exact Statement.alike_mk rfl (hreturned.trans hm) hsound
  · rintro ⟨r, trail, stopped⟩ _ s₁ ⟨hresult, hstopped, hreturned, hsound⟩
    have hstopped : stopped = true := hstopped
    simp only [hstopped, Bool.or_true]
    exact ⟨rfl, hresult, rfl, Statement.alike_mk rfl hreturned hsound⟩

/-- **Evaluating a statement whose marks are set** ends where the first marked block is left behind,
and otherwise has its meaning. -/
theorem Statement.Whole.tracked (hcall : CallsAgree call meant) {t : Statement} (h : t.Whole) :
    t.Tracked call meant := by
  induction h with
  | action d =>
      intro m₀ m s _
      rw [Statement.watched]
      refine Agree.tracks ((Statement.agree_action hcall d m s).mono ?_)
      rintro ⟨r, m'⟩ _ e ⟨hresult, hstops, -⟩
      have hany (m₁ m₂ : Mark) : (Statement.action d).Alike m₁ m₂ := by
        rw [Statement.Alike]
        trivial
      refine ⟨⟨hresult, hstops, fun hgoing => ?_⟩, hany _ _⟩
      exact ⟨(Bool.or_eq_false_iff.1 hgoing).1, hany _ _⟩
  | @block d head body hlisted hfinished ih =>
      cases head with
      | conditional => exact Statement.tracked_conditional hcall d hfinished hlisted ih
      | loop n => exact Statement.tracked_loop d n hfinished hlisted ih

end

/-! ### Evaluating a plan again -/

/-- What an evaluation of a plan comes to: its result or the reason why it halted, and what has
become of the world and the variables. -/
def Body.outcome (call : Call → Run σ Result) (p : Program) (t : Trail Mark) (s : Scope σ) :
    Except Halt Result × Setting σ :=
  let done := (p.run call t).exec s
  (done.1.map Prod.fst, done.2.setting)

/-- What an evaluation comes to that ends at a point: the result there, once it is recorded. -/
def Point.outcome (x : Point σ) : Except Halt Result × Setting σ :=
  (if x.result.value.isWritable then .ok x.result else .error (.fault .unwritable), x.setting)

/-- The marks after an evaluation of a plan.  If it halts, they stay as they were. -/
def Body.marksAfter (call : Call → Run σ Result) (p : Program) (t : Trail Mark) (s : Scope σ) :
    Trail Mark :=
  match (p.run call t).exec s with
  | (.ok (_, t'), _) => t'
  | (.error _, _) => t

/-- The marks of a plan that has been evaluated some number of times, each time with skills of any
kind and in any scope. -/
inductive Body.Evaluated (p : Program) : Trail Mark → Prop
  | never : Body.Evaluated p .fresh
  | again {τ : Type} {t : Trail Mark} (h : Body.Evaluated p t) (kit : Toolkit τ) (s : Scope τ) :
      Body.Evaluated p (p.marksAfter kit.call t s)

/-- The first point at which a plan, evaluated as if for the first time, leaves a marked block
behind. -/
def Body.passed (meant : Call → Act σ Result) (p : Program) (t : Trail Mark) (s : Setting σ) :
    Option (Point σ) :=
  (watchedAll meant p.statements t.inner .none s).passed

/-- Running a finished body is running its statements, and marking it if they stopped. -/
theorem Body.run_finish (call : Call → Run σ Result) (p : Program) (t : Trail Mark) :
    p.finish.run call t = (do
      let progress ← runAll call p.statements t.inner .none
      pure (progress.result,
        { returned := progress.stopped || t.returned, inner := progress.marks })) := by
  unfold Body.run
  congr 1
  funext progress
  cases hstopped : progress.stopped <;> simp [Progress.conclude, hstopped, Body.finish]

/-- A finished body is tracked by its statements. -/
theorem Body.finish_tracks {call : Call → Run σ Result} {meant : Call → Act σ Result}
    (hcall : CallsAgree call meant) {p : Program} (hplan : ∀ t ∈ p.statements, t.Whole)
    {marks₀ : List Mark} {t : Trail Mark} (hmarks : alikeAll p.statements marks₀ t.inner)
    (s : Scope σ) :
    Tracks (fun x _ e => x.1 = e.result ∧
        (x.2.returned = false → t.returned = false ∧ alikeAll p.statements marks₀ x.2.inner) ∧
        alikeAll p.statements x.2.inner x.2.inner)
      (fun x r => x.1 = r ∧ x.2.returned = true ∧ r.value.isWritable = true ∧
        alikeAll p.statements x.2.inner x.2.inner)
      ((p.finish.run call t).exec s) (watchedAll meant p.statements marks₀ .none s.setting) := by
  rw [Body.run_finish]
  refine (runAll_tracks hplan (fun t ht => (hplan t ht).tracked hcall) hmarks rfl s).map_left ?_ ?_
  · rintro progress _ e ⟨hends, hself⟩
    refine ⟨hends.result, fun hgoing => ?_, hself⟩
    obtain ⟨hstopped, hreturned⟩ := Bool.or_eq_false_iff.1 hgoing
    exact ⟨hreturned, (hends.onward hstopped).2⟩
  · rintro progress r ⟨hresult, hstopped, hwritable, hself⟩
    exact ⟨hresult, by simp [hstopped], hwritable, hself⟩

/-- A computation that agrees and has a value agrees with some value. -/
theorem Agree.exists_of_ok {rel : α → Bool → β → Prop} {a : α} {s : Scope σ}
    {y : Except Halt β × Setting σ} (h : Agree rel (.ok a, s) y) : ∃ b, rel a s.returned b := by
  cases h with
  | value h => exact ⟨_, h⟩

/-- What an evaluation does to the marks: it keeps each block marked together with its body, and
unless it stops it changes none of these marks. -/
theorem Body.marksAfter_alike {p : Program} (hplan : ∀ t ∈ p.statements, t.Whole) (kit : Toolkit σ)
    {marks₀ : List Mark} {t : Trail Mark} (hmarks : alikeAll p.statements marks₀ t.inner)
    (s : Scope σ) :
    let t' := p.finish.marksAfter kit.call t s
    alikeAll p.statements t'.inner t'.inner ∧
      (t'.returned = false → t.returned = false ∧ alikeAll p.statements marks₀ t'.inner) := by
  intro t'
  have hself := alikeAll_self (fun t ht _ _ => (hplan t ht).alike_self) hmarks
  have htracks := Body.finish_tracks (kit.agreeWithin maxCallDepth) hplan hmarks s
  change Tracks _ _ ((p.finish.run kit.call t).exec s) _ at htracks
  simp only [t', Body.marksAfter]
  generalize (p.finish.run kit.call t).exec s = outcome at htracks
  obtain ⟨r, s'⟩ := outcome
  cases r with
  | error e => exact ⟨hself, fun hgoing => ⟨hgoing, hmarks⟩⟩
  | ok x =>
      cases htracks with
      | cut _ h =>
          obtain ⟨-, hreturned, -, hself'⟩ := h
          exact ⟨hself', fun hgoing => absurd hreturned (by simp [hgoing])⟩
      | whole _ h =>
          obtain ⟨_, -, hkept, hself'⟩ := h.exists_of_ok
          exact ⟨hself', hkept⟩

/-- However often a plan has been evaluated, each of its blocks is marked together with its body,
and none is marked unless the plan is. -/
theorem Body.Evaluated.marks {p : Program} (hplan : ∀ t ∈ p.statements, t.Whole)
    {t : Trail Mark} (h : p.finish.Evaluated t) :
    alikeAll p.statements t.inner t.inner ∧
      (t.returned = false → alikeAll p.statements [] t.inner) := by
  induction h with
  | never =>
      have hfresh := alikeAll_nil fun t ht => (hplan t ht).alike_fresh
      exact ⟨hfresh, fun _ => hfresh⟩
  | again _ kit s ih =>
      refine ⟨(Body.marksAfter_alike hplan kit ih.1 s).1, fun hgoing => ?_⟩
      have hreturned := ((Body.marksAfter_alike hplan kit ih.1 s).2 hgoing).1
      exact ((Body.marksAfter_alike hplan kit (ih.2 hreturned) s).2 hgoing).2

/-- Computations that agree have the same outcome, if the relation compares the results. -/
theorem Agree.outcome_eq {rel : Result × γ → Bool → Ending → Prop}
    (hrel : ∀ x flag e, rel x flag e → x.1 = e.result) {x : Except Halt (Result × γ) × Scope σ}
    {y : Except Halt Ending × Setting σ} (h : Agree rel x y) :
    (x.1.map Prod.fst, x.2.setting) = (y.1.map Ending.result, y.2) := by
  cases h with
  | value h => simp [Except.map, hrel _ _ _ h]
  | halt f s => rfl

/-- What a plan comes to that was never evaluated before is what watching it shows. -/
theorem Body.outcome_fresh {call : Call → Run σ Result} {meant : Call → Act σ Result}
    (hcall : CallsAgree call meant) {p : Program} (hplan : ∀ t ∈ p.statements, t.Whole)
    (marks : List Mark) (s : Scope σ) :
    p.finish.outcome call .fresh s =
      ((watchedAll meant p.statements marks .none s.setting).outcome.map Ending.result,
        (watchedAll meant p.statements marks .none s.setting).setting) := by
  have hfinished : p.finish.finished = true := rfl
  have hagree := Body.run_agree hfinished (fun t ht => (hplan t ht).agrees hcall)
    Trail.clear_fresh s
  have hshows := shows_watchedAll (fun t ht m => (hplan t ht).shows_watched meant m) marks .none
  have hmeant : (sequence recording meant p.finish.statements .none).exec s.setting = _ :=
    hshows s.setting
  rw [hmeant] at hagree
  exact hagree.outcome_eq fun _ _ _ h => h.result

/-- An evaluation ends where the first marked block is left behind, and otherwise comes to what the
first one would. -/
theorem Body.outcome_eq {call : Call → Run σ Result} {meant : Call → Act σ Result}
    (hcall : CallsAgree call meant) {p : Program} (hplan : ∀ t ∈ p.statements, t.Whole)
    {marks₀ : List Mark} {t : Trail Mark} (hmarks : alikeAll p.statements marks₀ t.inner)
    (s : Scope σ) :
    p.finish.outcome call t s =
      ((watchedAll meant p.statements marks₀ .none s.setting).passed.map Point.outcome).getD
        (p.finish.outcome call .fresh s) := by
  rw [Body.outcome_fresh hcall hplan marks₀]
  have htracks := Body.finish_tracks hcall hplan hmarks s
  unfold Body.outcome
  generalize (p.finish.run call t).exec s = outcome at htracks
  generalize watchedAll meant p.statements marks₀ .none s.setting = watched at htracks
  cases htracks with
  | whole hpassed h =>
      rw [hpassed]
      exact h.outcome_eq fun _ _ _ h => h.1
  | cut hpassed h =>
      obtain ⟨value, s'⟩ := outcome
      rw [hpassed]
      cases value with
      | ok x =>
          obtain ⟨hresult, -, hwritable, -⟩ := h
          simp [Except.map, hresult, hwritable, Point.outcome]
      | error f =>
          obtain ⟨rfl, hunwritable⟩ := h
          simp [Except.map, hunwritable, Point.outcome]

/-- **Evaluating a plan again.**  Take any text, read as far as it can be, the marks that any
evaluations of the plan have left, any skills and any variables.  The next evaluation is that of a
fresh copy, cut off where this first leaves a marked block behind: it ends with the result there, or
halts if that is too long to be recorded.  So the two have the same result or halt for the same
reason, make the same calls and leave the same world and variables exactly if there is no such
point, or if the fresh copy does nothing more after it and comes to what was reached there.  There
is none as long as no evaluation of the plan has stopped before its end. -/
theorem outcome_again (kit : Toolkit σ) (text : List Char) {t : Trail Mark}
    (h : (Body.fresh.feed text).1.finish.Evaluated t) (world : σ) (bindings : Variables) :
    let p := (Body.fresh.feed text).1.finish
    let s : Scope (σ × List Invocation) := { world := (world, []), bindings := bindings }
    let fresh := p.outcome kit.logged.call .fresh s
    let passed := p.passed (kit.logged.meaning recording) t s.setting
    p.outcome kit.logged.call t s = (passed.map Point.outcome).getD fresh ∧
      (p.outcome kit.logged.call t s = fresh ↔ ∀ point ∈ passed, fresh = point.outcome) ∧
      (t.returned = false → p.outcome kit.logged.call t s = fresh) := by
  intro p s fresh passed
  have hplan := (Body.wellRead_fresh.feed text).listed
  have hcall := kit.logged.agreeWithin maxCallDepth
  have hequation : p.outcome kit.logged.call t s = (passed.map Point.outcome).getD fresh :=
    Body.outcome_eq hcall hplan (h.marks hplan).1 s
  refine ⟨hequation, ?_, fun hreturned => ?_⟩
  · rw [hequation]
    cases passed with
    | none => simp
    | some point => simp [eq_comm]
  · have hfresh := Body.outcome_eq hcall hplan ((h.marks hplan).2 hreturned) s
    rw [watchedAll_nil fun t ht => (hplan t ht).watched_fresh _] at hfresh
    exact hfresh

/-- A plan that returns if it counts to one, and counts on otherwise. -/
def countOn : String := "?count==1\x7b->True\x7dcount;"

/-- The plan that `countOn` is read as. -/
def countOnPlan : Program := (Body.fresh.feed countOn.toList).1

/-- Its block. -/
def countOnBlock : Statement :=
  .block { text := "count==1" } .conditional
    { statements := [.action { text := "->True", named := true }], current := .fresh
      depth := 0, finished := true }

theorem countOnPlan_statements :
    countOnPlan.statements = [countOnBlock, .action { text := "count", named := true }] := rfl

/-- The marks that it has when it has returned. -/
def countOnMarks : List Mark := [.mk true { returned := true, inner := [.mk true .fresh] }]

/-- So many counts so far, of which the last ones are in the log. -/
def countScope (n logged : Nat) : Scope (Nat × List Invocation) :=
  { world := (n, List.replicate logged { skill := counting, arguments := [] }) }

theorem ofText_countsToOne :
    Condition.ofText "count==1".toList =
      .compare (.call { name := "count", arguments := [] }) .equal (.literal "1".toList) := by
  have hone : Expr.ofText "1".toList = .literal "1".toList := by
    rw [Expr.ofText]
    rfl
  rw [← hone, ← ofText_count]
  rfl

/-- The first evaluation returns from the block. -/
theorem exec_runAll_countOn_first :
    (runAll counter.logged.call countOnPlan.statements [] .none).exec (countScope 0 0) =
      (.ok { result := { value := .bool true, replan := true }, stopped := true
             marks := countOnMarks },
        { countScope 1 1 with returned := true }) := by
  have hcondition : ((Condition.ofText "count==1".toList).eval counter.logged.call).exec
      (countScope 0 0) = (.ok (.holds true), countScope 1 1) := by
    rw [ofText_countsToOne]
    rfl
  have hgive : (runAll counter.logged.call [.action { text := "->True", named := true }] []
      .none).exec (countScope 1 1) =
      (.ok { result := { value := .bool true, replan := true }, stopped := true
             marks := [.mk true .fresh] },
        { countScope 1 1 with returned := true }) := by
    rw [runAll_cons, List.headD_nil, Run.exec_bind_ok (exec_run_give _ _)]
    rfl
  have hblock : (countOnBlock.run counter.logged.call .fresh).exec (countScope 0 0) =
      (.ok ({ value := .bool true, replan := true },
          .mk true { returned := true, inner := [.mk true .fresh] }),
        { countScope 1 1 with returned := true }) := by
    rw [countOnBlock, Statement.run_conditional, Run.exec_bind_ok hcondition]
    simp only [Body.run, bind_assoc]
    rw [show Mark.fresh.body.inner = [] from rfl, Run.exec_bind_ok hgive]
    rfl
  rw [countOnPlan_statements, runAll_cons, List.headD_nil, Run.exec_bind_ok hblock]
  rfl

/-- The next one counts to two, skips the block and leaves its mark alone. -/
theorem exec_run_countOnBlock (m : Mark) :
    (countOnBlock.run counter.logged.call m).exec (countScope 1 0) =
      (.ok (.none, m), countScope 2 1) := by
  have hcondition : ((Condition.ofText "count==1".toList).eval counter.logged.call).exec
      (countScope 1 0) = (.ok (.holds false), countScope 2 1) := by
    rw [ofText_countsToOne]
    rfl
  rw [countOnBlock, Statement.run_conditional, Run.exec_bind_ok hcondition]
  rfl

/-- The first evaluation leaves the block marked. -/
theorem marksAfter_countOn :
    (countOnPlan.finish.marksAfter counter.logged.call .fresh (countScope 0 0)).inner =
      countOnMarks := by
  rw [Body.marksAfter, Body.exec_run_finish exec_runAll_countOn_first]

/-- With that mark the next evaluation stops behind the block. -/
theorem outcome_countOn_marked {t : Trail Mark} (h : t.inner = countOnMarks) :
    countOnPlan.finish.outcome counter.logged.call t (countScope 1 0) =
      (.ok .none, (countScope 2 1).setting) := by
  have hall : (runAll counter.logged.call countOnPlan.statements countOnMarks .none).exec
      (countScope 1 0) =
      (.ok { result := .none, stopped := true, marks := countOnMarks }, countScope 2 1) := by
    rw [countOnPlan_statements, runAll_cons, countOnMarks, List.headD_cons,
      Run.exec_bind_ok (exec_run_countOnBlock _)]
    rfl
  rw [Body.outcome, Body.run_finish, h, Run.exec_bind_ok hall]
  rfl

/-- A fresh copy counts once more. -/
theorem outcome_countOn_fresh :
    countOnPlan.finish.outcome counter.logged.call .fresh (countScope 1 0) =
      (.ok (.ofValue (.int 3)), (countScope 3 2).setting) := by
  have hcount : ((Statement.action { text := "count", named := true }).run counter.logged.call
      .fresh).exec (countScope 2 1) = (.ok (.ofValue (.int 3), .fresh), countScope 3 2) := by
    rw [Statement.exec_run_action rfl ofText_count]
    rfl
  have hlast : (runAll counter.logged.call [.action { text := "count", named := true }] []
      .none).exec (countScope 2 1) =
      (.ok { result := .ofValue (.int 3), stopped := false, marks := [.fresh] },
        countScope 3 2) := by
    rw [runAll_cons, List.headD_nil, Run.exec_bind_ok hcount]
    rfl
  have hall : (runAll counter.logged.call countOnPlan.statements [] .none).exec (countScope 1 0) =
      (.ok { result := .ofValue (.int 3), stopped := false, marks := [.fresh, .fresh] },
        countScope 3 2) := by
    rw [countOnPlan_statements, runAll_cons, List.headD_nil,
      Run.exec_bind_ok (exec_run_countOnBlock _)]
    change (runAll counter.logged.call [.action { text := "count", named := true }] [] .none >>=
      _).exec _ = _
    rw [Run.exec_bind_ok hlast]
    rfl
  rw [Body.outcome, Body.exec_run_finish hall]
  rfl

/-- **A block that returned once stands in the way.**  When it is first evaluated, the plan counts
to one and returns.  Evaluated again it counts to two and ends there, although nothing returns; a
fresh copy counts on to three. -/
theorem countOn_stops_early :
    let p := countOnPlan.finish
    let t := p.marksAfter counter.logged.call .fresh (countScope 0 0)
    p.Evaluated t ∧
      p.outcome counter.logged.call t (countScope 1 0) = (.ok .none, (countScope 2 1).setting) ∧
      p.outcome counter.logged.call .fresh (countScope 1 0) =
        (.ok (.ofValue (.int 3)), (countScope 3 2).setting) :=
  ⟨.again .never counter.logged _, outcome_countOn_marked marksAfter_countOn,
    outcome_countOn_fresh⟩

/-- A fresh copy of the plan leaves the block behind when it counts to two. -/
theorem outcome_again_countOn :
    let p := (Body.fresh.feed countOn.toList).1.finish
    let t := p.marksAfter counter.logged.call .fresh (countScope 0 0)
    p.Evaluated t ∧
      ∃ point, p.passed (counter.logged.meaning recording) t (countScope 1 0).setting = some point ∧
        point.outcome = (.ok .none, (countScope 2 1).setting) := by
  intro p t
  have hevaluated : p.Evaluated t := .again .never counter.logged _
  have hagain : p.outcome counter.logged.call t (countScope 1 0) =
      ((p.passed (counter.logged.meaning recording) t (countScope 1 0).setting).map
        Point.outcome).getD (p.outcome counter.logged.call .fresh (countScope 1 0)) :=
    (outcome_again counter countOn.toList hevaluated 1 .empty).1
  have hmarked := outcome_countOn_marked marksAfter_countOn
  rw [show p.outcome counter.logged.call t (countScope 1 0) = _ from hmarked,
    show p.outcome counter.logged.call .fresh (countScope 1 0) = _ from outcome_countOn_fresh]
    at hagain
  refine ⟨hevaluated, ?_⟩
  cases hpassed : p.passed (counter.logged.meaning recording) t (countScope 1 0).setting with
  | none =>
      rw [hpassed] at hagain
      cases congrArg Prod.fst hagain
  | some point =>
      rw [hpassed] at hagain
      exact ⟨point, rfl, hagain.symm⟩

end DronePilot.Plan
