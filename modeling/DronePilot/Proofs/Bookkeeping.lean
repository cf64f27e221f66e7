import DronePilot.Proofs.Chunking
import DronePilot.Proofs.Wholeness

/-!
# The books of the reader

Every level of a plan counts braces for itself, and the outermost level hands out positions of
statements.  This file says that both accounts are right at every time, whatever characters have
arrived, in however many readings, and whether or not one of them stopped early.

A plan *reaches* what it becomes by taking characters (`Intake.Reaches`), so what one character
keeps is kept by every reading.

* `Body.Balanced.step` — around an open block at least one more brace is open than inside it, and a
  character keeps it so.  Hence no closing brace finishes a plan around an open block
  (`Body.Balanced.outside_of_closed`).
* `Body.balanced_of_reaches` — so it is at every level of a plan that was read.
* `handed_out_are_listed` — the statements handed out are the complete ones of the outermost level,
  followed by the block that is open there.
-/

namespace DronePilot.Plan

/-- The second intake comes of the first one by taking characters. -/
inductive Intake.Reaches (i : Intake) : Intake → Prop
  | refl : Intake.Reaches i i
  | step {j : Intake} {c : Char} {s : Body.Step} (h : Intake.Reaches i j)
      (hstep : j.program.step c = .ok s) : Intake.Reaches i (j.after s)

namespace Intake

/-- What is reached in two steps is reached. -/
theorem Reaches.trans {i j k : Intake} (hij : i.Reaches j) (hjk : j.Reaches k) : i.Reaches k := by
  induction hjk with
  | refl => exact hij
  | step _ hstep ih => exact ih.step hstep

/-- Reading a text reaches the intake that is left. -/
theorem reaches_feed (i : Intake) (text : List Char) : i.Reaches (i.feed text).1 := by
  induction text generalizing i with
  | nil => exact .refl
  | cons c text ih =>
      rw [Intake.feed]
      cases hstep : i.program.step c with
      | error f => exact .refl
      | ok s =>
          have hafter : i.Reaches (i.after s) := Reaches.refl.step hstep
          cases hclosed : s.closed with
          | true => simpa [hclosed] using hafter
          | false => simpa [hclosed] using hafter.trans (ih (i.after s))

/-- So does taking a chunk. -/
theorem reaches_take (i : Intake) (chunk : Chunk) : i.Reaches (i.take chunk).1 := by
  by_cases hother : chunk = .other
  · subst hother
    exact .refl
  · have htake := congrArg Prod.fst (Intake.take_eq_feed i hother)
    simp only at htake
    rw [htake]
    exact i.reaches_feed chunk.content

/-- So does reading all chunks. -/
theorem reaches_readAll (i : Intake) (chunks : List Chunk) : i.Reaches (i.readAll chunks).1 := by
  induction chunks generalizing i with
  | nil => exact .refl
  | cons chunk rest ih =>
      have htake := i.reaches_take chunk
      simp only [Intake.readAll, Intake.takeAll] at ih ⊢
      cases hout : i.take chunk with
      | mk i' out =>
          obtain ⟨shown, reading⟩ := out
          rw [hout] at htake
          cases reading with
          | more => exact htake.trans (ih i')
          | closed => exact htake
          | failed f => exact htake

/-- **Readings take characters**, any number of them, one after the other. -/
theorem reaches_takeEach (i : Intake) (chunks : List Chunk) : i.Reaches (i.takeEach chunks).1 := by
  induction chunks generalizing i with
  | nil => exact .refl
  | cons chunk rest ih => exact (i.reaches_readAll [chunk]).trans (ih _)

/-- What a character keeps of a plan, every reading keeps. -/
theorem Reaches.keeps {i j : Intake} (h : i.Reaches j) (holds : Program → Prop)
    (hi : holds i.program)
    (hkeeps : ∀ {p c s}, holds p → Body.step p c = .ok s → holds s.next) : holds j.program := by
  induction h with
  | refl => exact hi
  | step _ hstep ih => exact hkeeps ih hstep

/-- A sound intake stays sound, and its plan grows. -/
theorem Sound.of_reaches {i j : Intake} (hi : i.Sound) (h : i.Reaches j) :
    j.Sound ∧ i.program.Grows j.program := by
  induction h with
  | refl => exact ⟨hi, Body.Grows.refl_of_sound hi.program⟩
  | step _ hstep ih =>
      obtain ⟨hj, hgrows⟩ := ih
      exact ⟨hj.after hstep, hgrows.trans ((hj.program.moves hstep).grows hj.program)⟩

end Intake

/-! ### Braces -/

/-- The books of one level: only complete statements are listed, the statement under way is not
complete, and around an open block at least one more brace is open than inside it. -/
structure Body.Balanced (p : Program) : Prop extends p.Sound where
  deeper : ∀ d head body, p.current = .block d head body → body.depth + 1 ≤ p.depth

/-- A fresh body is balanced. -/
theorem Body.balanced_fresh : Body.fresh.Balanced where
  toSound := Body.sound_fresh
  deeper := by
    intro d head body h
    cases h

/-- A block that a character leaves open counts the brace as the plan around it does. -/
theorem Body.depth_lt_of_step {p body : Program} (hdepth : body.depth + 1 ≤ p.depth) {c : Char}
    {u : Body.Step} (hu : body.step c = .ok u) (hopen : u.closed = false) :
    u.next.depth + 1 ≤ braceDepth p.depth c := by
  obtain ⟨t, -, rfl⟩ := Body.step_eq_ok hu
  rw [Body.advance_eq] at hopen ⊢
  have hshift := braceDepth_add hopen (p.depth - body.depth)
  have hsum : p.depth - body.depth + body.depth = p.depth := by omega
  rw [hsum] at hshift
  simp only
  omega

/-- **A character keeps the books of a level.** -/
theorem Body.Balanced.step {p : Program} (h : p.Balanced) {c : Char} {s : Body.Step}
    (hstep : p.step c = .ok s) : s.next.Balanced := by
  refine ⟨(h.moves hstep).sound h.toSound, ?_⟩
  obtain ⟨t, ht, rfl⟩ := Body.step_eq_ok hstep
  rw [Body.advance_eq]
  obtain ⟨-, hunder, hopen, hended, -⟩ | ⟨hopen, d, head, rfl⟩ | ⟨-, d, rfl⟩ |
    ⟨d, head, body, u, hcurrent, -, hu, rfl⟩ := Statement.step_cases h.under_way ht
  · intro d head body hblock
    simp only [Body.taking, hended, Bool.false_eq_true, if_false] at hblock
    exact absurd hblock (Statement.ne_block hunder hopen d head body)
  · intro d' head' body' hblock
    simp only [Body.taking, Statement.opening, Bool.false_eq_true, if_false] at hblock
    cases hblock
    have hbrace := Statement.brace_of_opening hopen h.under_way ht
    subst hbrace
    simp [braceDepth, Body.fresh]
  · intro d' head' body' hblock
    simp only [Body.taking, Statement.acting, if_true] at hblock
    cases hblock
  · intro d' head' body' hblock
    cases hclosed : u.closed with
    | true =>
        simp only [Body.taking, hclosed, if_true] at hblock
        cases hblock
    | false =>
        simp only [Body.taking, hclosed, Bool.false_eq_true, if_false] at hblock
        cases hblock
        exact Body.depth_lt_of_step (h.deeper d head body hcurrent) hu hclosed

/-- **Only a plan without an open block is finished.**  The closing brace that finishes a plan finds
none of its blocks open, and leaves none. -/
theorem Body.Balanced.outside_of_closed {p : Program} (h : p.Balanced) {c : Char} {s : Body.Step}
    (hstep : p.step c = .ok s) (hclosed : s.closed = true) :
    (∀ d head body, p.current ≠ .block d head body) ∧
      ∀ d head body, s.next.current ≠ .block d head body := by
  have hbrace : c = '}' ∧ p.depth = 0 := by
    obtain ⟨t, -, rfl⟩ := Body.step_eq_ok hstep
    rw [Body.advance_eq] at hclosed
    simpa [Body.closedBy] using hclosed
  obtain ⟨rfl, hdepth⟩ := hbrace
  have hbefore : ∀ d head body, p.current ≠ .block d head body := by
    intro d head body hcurrent
    have hdeep := h.deeper d head body hcurrent
    omega
  refine ⟨hbefore, ?_⟩
  intro d head body hnext
  obtain ⟨t, ht, rfl⟩ := Body.step_eq_ok hstep
  rw [Body.advance_eq] at hnext
  obtain ⟨-, hunder, hopen, hended, -⟩ | ⟨hopen, d', head', rfl⟩ | ⟨-, d', rfl⟩ |
    ⟨d', head', body', u, hcurrent, -⟩ := Statement.step_cases h.under_way ht
  · simp only [Body.taking, hended, Bool.false_eq_true, if_false] at hnext
    exact Statement.ne_block hunder hopen d head body hnext
  · have hopening := Statement.brace_of_opening hopen h.under_way ht
    exact absurd hopening (by decide)
  · simp only [Body.taking, Statement.acting, if_true] at hnext
    cases hnext
  · exact hbefore d' head' body' hcurrent

/-- `p.HasLevel q`: the plan `q` is `p` itself or the body of a block somewhere in `p`. -/
inductive Body.HasLevel : Program → Program → Prop
  | self (p : Program) : Body.HasLevel p p
  | inside {p body q : Program} {d : Draft} {head : Head} (hblock : .block d head body ∈ p.parts)
      (h : Body.HasLevel body q) : Body.HasLevel p q

/-- The books are right at every level of the plan. -/
def Body.BalancedThroughout (p : Program) : Prop :=
  ∀ q, p.HasLevel q → q.Balanced

/-- The books are right at every level of the statement. -/
def Statement.BalancedThroughout (s : Statement) : Prop :=
  ∀ d head body, s = .block d head body → body.BalancedThroughout

/-- A body is balanced throughout if it is, and all that is in it. -/
theorem Body.balancedThroughout_iff {p : Program} :
    p.BalancedThroughout ↔
      p.Balanced ∧ (∀ s ∈ p.statements, s.BalancedThroughout) ∧ p.current.BalancedThroughout := by
  have hparts : ∀ s, s ∈ p.parts ↔ s ∈ p.statements ∨ s = p.current := by simp [Body.parts]
  constructor
  · intro h
    have hpart : ∀ s ∈ p.parts, s.BalancedThroughout := by
      intro s hs d head body hblock q hq
      subst hblock
      exact h q (.inside hs hq)
    exact ⟨h p (.self p), fun s hs => hpart s ((hparts s).2 (Or.inl hs)),
      hpart p.current ((hparts _).2 (Or.inr rfl))⟩
  · intro h q hq
    obtain ⟨hself, hlisted, hcurrent⟩ := h
    cases hq with
    | self => exact hself
    | inside hblock hlevel =>
        rcases (hparts _).1 hblock with hmem | heq
        · exact hlisted _ hmem _ _ _ rfl q hlevel
        · exact hcurrent _ _ _ heq.symm q hlevel

/-- Where there is no block, there is nothing to balance. -/
theorem Statement.balancedThroughout_of_not_block {s : Statement}
    (h : ∀ d head body, s ≠ .block d head body) : s.BalancedThroughout := by
  intro d head body hblock
  exact absurd hblock (h d head body)

theorem Body.balancedThroughout_fresh : Body.fresh.BalancedThroughout := by
  rw [Body.balancedThroughout_iff]
  refine ⟨Body.balanced_fresh, by simp [Body.fresh], ?_⟩
  exact Statement.balancedThroughout_of_not_block (by intro _ _ _ h; cases h)

/-- A plan keeps its books at every level if the statement under way does. -/
theorem Body.BalancedThroughout.advance {p : Program} (h : p.BalancedThroughout) {c : Char}
    {t : Statement.Step} (ht : p.current.step c = .ok t) (hnext : t.next.BalancedThroughout) :
    (p.advance t c).next.BalancedThroughout := by
  obtain ⟨hself, hlisted, -⟩ := Body.balancedThroughout_iff.1 h
  rw [Body.balancedThroughout_iff]
  refine ⟨hself.step (Body.step_of_current ht), ?_, ?_⟩
  · intro s hs
    rw [Body.advance_eq] at hs
    simp only [Body.taking] at hs
    split at hs
    · split at hs
      · rcases List.mem_append.1 hs with hs | hs
        · exact hlisted s hs
        · rw [List.mem_singleton.1 hs]
          exact hnext
      · exact hlisted s hs
    · exact hlisted s hs
  · rw [Body.advance_eq]
    simp only [Body.taking]
    split
    · exact Statement.balancedThroughout_of_not_block (by intro _ _ _ h; cases h)
    · exact hnext

/-- **A character keeps the books of a statement under way.**  The induction goes inwards, through
the open blocks to the statement that takes the character. -/
theorem Statement.UnderWay.balancedThroughout_step {s : Statement} (h : s.UnderWay)
    (hs : s.BalancedThroughout) {c : Char} {t : Statement.Step} (hstep : s.step c = .ok t) :
    t.next.BalancedThroughout := by
  induction h generalizing t with
  | @block d head body hlisted hcurrent hopen ih =>
      obtain ⟨hblock, -⟩ | ⟨hblock, -⟩ | ⟨hblock, -⟩ | ⟨_, _, _, u, heq, -, hu, rfl⟩ :=
        Statement.step_cases (s := .block d head body) hopen hstep
      · simp [hopen] at hblock
      · simp [hopen] at hblock
      · simp [hopen] at hblock
      · cases heq
        have hbody : body.BalancedThroughout := hs d head body rfl
        obtain ⟨t, ht, rfl⟩ := Body.step_eq_ok hu
        have hnext := ih (Body.balancedThroughout_iff.1 hbody).2.2 ht
        intro d' head' body' hblock
        cases hblock
        exact hbody.advance ht hnext
  | _ =>
      obtain ⟨-, hcomplete, hblock, -⟩ | ⟨-, d, head, rfl⟩ | ⟨-, d, rfl⟩ | ⟨_, _, _, _, heq, -⟩ :=
        Statement.step_cases rfl hstep
      · exact Statement.balancedThroughout_of_not_block (Statement.ne_block hcomplete hblock)
      · intro d' head' body' hblock
        cases hblock
        exact Body.balancedThroughout_fresh
      · exact Statement.balancedThroughout_of_not_block (by intro _ _ _ h; cases h)
      · cases heq

/-- What was read of a plan is whole and its books are right, at every level. -/
structure Body.WellKept (p : Program) : Prop extends p.WellRead where
  balanced : p.BalancedThroughout

/-- **Every level of a plan that was read keeps its books**, and all that is listed is whole. -/
theorem Intake.Reaches.wellKept {i : Intake} (h : Intake.Reaches {} i) : i.program.WellKept := by
  apply h.keeps Body.WellKept ⟨Body.wellRead_fresh, Body.balancedThroughout_fresh⟩
  intro p c s hp hstep
  refine ⟨hp.toWellRead.step hstep, ?_⟩
  obtain ⟨t, ht, rfl⟩ := Body.step_eq_ok hstep
  have hcurrent := (Body.balancedThroughout_iff.1 hp.balanced).2.2
  exact hp.balanced.advance ht (hp.current.balancedThroughout_step hcurrent ht)

/-! ### Positions -/

/-- The statements that can be started are the complete ones and the block that is open. -/
theorem Body.startable_eq (p : Program) :
    p.startable =
      p.statements ++ if p.current.isOpenBlock then [p.current] else [] := by
  have hlisted : (List.range p.statements.length).map p.statementAt = p.statements := by
    apply List.ext_getElem
    · simp
    · intro k hk hk'
      simp [Body.statementAt_lt hk']
  unfold Body.startable Body.issued
  by_cases hopen : p.current.isOpenBlock
  · simp only [hopen, if_true]
    rw [List.range_succ, List.map_append, hlisted, List.map_singleton, Body.statementAt_length]
  · simp only [hopen, Bool.false_eq_true, if_false]
    rw [Nat.add_zero, hlisted, List.append_nil]

/-- Only statements that are worth keeping are listed. -/
theorem Body.isProper_of_step {p : Program} (hp : ∀ t ∈ p.statements, t.isProper = true) {c : Char}
    {s : Body.Step} (hstep : p.step c = .ok s) : ∀ t ∈ s.next.statements, t.isProper = true := by
  obtain ⟨t, -, rfl⟩ := Body.step_eq_ok hstep
  rw [Body.advance_eq]
  simp only [Body.taking]
  split
  · split
    · rename_i hproper
      exact List.forall_mem_append.2 ⟨hp, List.forall_mem_singleton.2 hproper⟩
    · exact hp
  · exact hp

/-- What can be started is a block, or an action with a text. -/
theorem Body.Sound.startable_proper {p : Program} (h : p.Sound)
    (hproper : ∀ t ∈ p.statements, t.isProper = true) {s : Statement} (hs : s ∈ p.startable) :
    s.isExecutable = true ∧ s.isProper = true := by
  rw [Body.startable_eq] at hs
  rcases List.mem_append.1 hs with hlisted | hopen
  · refine ⟨?_, hproper s hlisted⟩
    have hcomplete := h.listed s hlisted
    cases s with
    | action d => rfl
    | block d head body => rfl
    | code d => cases hcomplete
    | condition d => cases hcomplete
    | count d => cases hcomplete
  · split at hopen
    · rename_i hblock
      rw [List.mem_singleton.1 hopen]
      cases hcurrent : p.current with
      | block d head body => exact ⟨rfl, rfl⟩
      | code d => simp [hcurrent, Statement.isOpenBlock] at hblock
      | condition d => simp [hcurrent, Statement.isOpenBlock] at hblock
      | count d => simp [hcurrent, Statement.isOpenBlock] at hblock
      | action d => simp [hcurrent, Statement.isOpenBlock] at hblock
    · cases hopen

/-- Characters that go into an open block make nothing ready outside it. -/
theorem Body.Sound.not_ready_inside {p : Program} (h : p.Sound)
    (hopen : p.current.isOpenBlock = true) {c : Char} {s : Body.Step}
    (hstep : p.step c = .ok s) : s.ready = false := by
  have hmoves := h.moves hstep
  cases hready : s.ready with
  | false => rfl
  | true =>
      rw [hready] at hmoves
      cases hmoves with
      | opens _ hclosed _ =>
          rw [hclosed] at hopen
          cases hopen
      | acts _ hclosed _ =>
          rw [hclosed] at hopen
          cases hopen

/-- **What is handed out is what stands in the plan.**  Whatever chunks have been read, in however
many readings, the statements at the positions handed out are the listed ones of the outermost
level, followed by the statement under way exactly if it is an open block.  No position is handed
out twice, and none for an empty action or for a statement inside a block; a position that was
handed out stays handed out and keeps its statement, of which more may be read. -/
theorem handed_out_are_listed (chunks : List Chunk) :
    let i := (({} : Intake).takeEach chunks).1
    i.ready.map i.program.statementAt =
      i.program.statements ++ (if i.program.current.isOpenBlock then [i.program.current] else []) ∧
    i.ready.Nodup ∧
    (∀ k ∈ i.ready, (i.program.statementAt k).isExecutable = true ∧
      (i.program.statementAt k).isProper = true) ∧
    (∀ c s, i.program.current.isOpenBlock = true → i.program.step c = .ok s → s.ready = false) ∧
    (∀ more, let j := (i.takeEach more).1
      i.ready <+: j.ready ∧
        ∀ k ∈ i.ready, (i.program.statementAt k).Continues (j.program.statementAt k)) := by
  intro i
  have hreaches : Intake.Reaches {} i := Intake.reaches_takeEach {} chunks
  have hsound : i.Sound := (Intake.sound_fresh.of_reaches hreaches).1
  have hhanded : i.ready.map i.program.statementAt = i.program.startable := by
    rw [hsound.ready]
    rfl
  have hproper : ∀ t ∈ i.program.statements, t.isProper = true :=
    hreaches.keeps (fun p => ∀ t ∈ p.statements, t.isProper = true) (by simp [Body.fresh])
      fun hp hstep => Body.isProper_of_step hp hstep
  refine ⟨?_, ?_, ?_, ?_, ?_⟩
  · rw [hhanded, Body.startable_eq]
  · rw [hsound.ready]
    exact List.nodup_range
  · intro k hk
    apply hsound.program.startable_proper hproper
    rw [← hhanded]
    exact List.mem_map_of_mem hk
  · intro c s hopen hstep
    exact hsound.program.not_ready_inside hopen hstep
  · intro more j
    obtain ⟨hsound', hgrows⟩ := hsound.of_reaches (Intake.reaches_takeEach i more)
    refine ⟨?_, ?_⟩
    · rw [hsound.ready, hsound'.ready]
      exact List.prefix_iff_eq_take.2 (by simp [List.take_range, hgrows.issued_le])
    · intro k hk
      rw [hsound.ready, List.mem_range] at hk
      exact hgrows.continues k hk

end DronePilot.Plan
