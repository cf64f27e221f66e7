import DronePilot.Proofs.Serving

/-!
# Sessions: reading and executing at the same time

While a plan is being read, an executor works on what has become ready.  A *session* has both sides:
how far the reading has come, the executor with the world it acts on, and the results it has
delivered.  Each side has one move.  The reader takes the next character, goes on to the next chunk,
or concludes the plan; the executor serves one statement.  The moves may alternate in any way
(`Session.Reachable`), and a session is settled when neither side can move any more.

* `Session.Reachable.turn`, `Session.Reachable.readChunk` — whole turns and whole chunks are
  sequences of moves.
* `Session.rested_deferred`, `Session.rested_streamed` — executing a plan that has been read, and
  reading it with a turn after each chunk, are sessions.
-/

namespace DronePilot.Plan

variable {σ : Type}

/-- How far the reading of a plan has come. -/
inductive Phase where
  /-- Text of the present chunk and further chunks are left. -/
  | reading (text : List Char) (chunks : List Chunk)
  /-- The reading has ended, and the plan is not concluded yet. -/
  | read (r : Reading)
  /-- The plan is concluded. -/
  | done (r : Reading)

/-- The phase after a text: the reading goes on unless the text stopped it. -/
def Reading.leadsTo : Reading → Phase → Phase
  | .more, onward => onward
  | .closed, _ => .read .closed
  | .failed f, _ => .read (.failed f)

/-- The phase at the beginning of a chunk. -/
def Chunk.opening (chunk : Chunk) (rest : List Chunk) : Phase :=
  match chunk.text? with
  | .error f => .read (.failed f)
  | .ok none => .reading [] rest
  | .ok (some s) => .reading s.toList rest

/-- A plan that is being read and executed. -/
structure Session (σ : Type) where
  phase : Phase
  executor : Executor
  world : σ
  /-- The results that the executor has delivered, oldest first. -/
  delivered : List Result := []
  /-- The number of statements that had been executed when the plan was concluded. -/
  early : Nat := 0

namespace Session

/-- The session of a plan of which nothing has been read, with a new executor. -/
def start (chunks : List Chunk) (world : σ) : Session σ :=
  { phase := .reading [] chunks
    executor := ({} : Executor).openPlan
    world := world }

/-- The move of the reader: one character, the next chunk, the end of the text, or the end of the
plan. -/
def read (s : Session σ) : Session σ :=
  match s.phase with
  | .reading (c :: text) chunks =>
    let (e, _, r) := s.executor.take (.text (String.singleton c))
    { s with executor := e, phase := r.leadsTo (.reading text chunks) }
  | .reading [] (chunk :: rest) => { s with phase := chunk.opening rest }
  | .reading [] [] => { s with phase := .read .more }
  | .read r =>
    { s with
      executor := (s.executor.conclude r).2
      phase := .done r
      early := s.executor.history.length }
  | .done _ => s

/-- The session after its executor has done something. -/
def after (s : Session σ) (done : Executor × σ) : Session σ :=
  { s with
    executor := done.1
    world := done.2
    delivered := s.delivered ++ if s.executor.isOver then [] else done.1.results }

/-- The move of the executor. -/
def serve (kit : Toolkit σ) (s : Session σ) : Session σ :=
  s.after (s.executor.serve kit s.world)

/-- A whole turn of the executor. -/
def turn (kit : Toolkit σ) (s : Session σ) : Session σ :=
  s.after (s.executor.turn kit s.world)

/-- The sessions that the two sides can get to, their moves in any order. -/
inductive Reachable (kit : Toolkit σ) (chunks : List Chunk) (world : σ) : Session σ → Prop
  | start : Reachable kit chunks world (start chunks world)
  | read {s : Session σ} (h : Reachable kit chunks world s) : Reachable kit chunks world s.read
  | serve {s : Session σ} (h : Reachable kit chunks world s) :
      Reachable kit chunks world (s.serve kit)

/-- Neither side can move any more. -/
structure Settled (kit : Toolkit σ) (s : Session σ) : Prop where
  read : s.read = s
  serve : s.serve kit = s

section

variable {s : Session σ} {a : Assignment} {chunks : List Chunk}

/-- Reading a character, in an executor of one plan. -/
theorem read_character (hplans : s.executor.plans = #[a]) (hsound : a.intake.Sound) {c : Char}
    {text : List Char} (hphase : s.phase = .reading (c :: text) chunks) :
    s.read =
      { s with
        executor := s.executor.fed a [c]
        phase := (a.intake.feed [c]).2.leadsTo (.reading text chunks) } := by
  have htake := Executor.take_text hplans hsound (String.singleton c)
  rw [String.toList_singleton] at htake
  obtain ⟨hexecutor, hreading⟩ := htake
  simp only [read, hphase]
  rw [← hexecutor, ← hreading]

/-- A whole text is read character by character. -/
theorem Reachable.readText {kit : Toolkit σ} {chunks₀ : List Chunk} {world : σ}
    (h : Reachable kit chunks₀ world s) (hplans : s.executor.plans = #[a])
    (hsound : a.intake.Sound) {text : List Char} (hphase : s.phase = .reading text chunks) :
    Reachable kit chunks₀ world
      { s with
        executor := s.executor.fed a text
        phase := (a.intake.feed text).2.leadsTo (.reading [] chunks) } := by
  induction text generalizing s a with
  | nil =>
      have hself : { s with
          executor := s.executor.fed a []
          phase := (a.intake.feed []).2.leadsTo (.reading [] chunks) } = s := by
        rw [Executor.fed_nil hplans]
        cases s
        cases hphase
        rfl
      rw [hself]
      exact h
  | cons c text ih =>
      have hread := h.read
      rw [read_character hplans hsound hphase] at hread
      by_cases hmore : (a.intake.feed [c]).2 = .more
      · rw [hmore] at hread
        have hrest := ih hread rfl (hsound.feed [c]).1 rfl
        rw [Executor.fed_cons hsound hmore, Intake.feed_cons_of_more hmore]
        exact hrest
      · rw [Executor.fed, Intake.feed_cons_of_stopped hmore, ← Executor.fed]
        cases hr : (a.intake.feed [c]).2 with
        | more => exact absurd hr hmore
        | _ => simpa [hr, Reading.leadsTo] using hread

end

/-- An executor that does nothing leaves the session as it is. -/
theorem after_self (s : Session σ) : s.after (s.executor, s.world) = s := by
  cases hover : s.executor.isOver with
  | true => simp [after, hover]
  | false => simp [after, Executor.results_of_not_over hover]

theorem serve_of_isOver {kit : Toolkit σ} {s : Session σ} (h : s.executor.isOver = true) :
    s.serve kit = s := by
  rw [Session.serve, Executor.serve_of_isOver h, after_self s]

/-- A turn that is not over after its first move goes on from there. -/
theorem turn_of_idle_serve {kit : Toolkit σ} {s : Session σ}
    (hmove : s.executor.activity = .idle → s.executor.queue ≠ [])
    (hidle : (s.serve kit).executor.activity = .idle) : s.turn kit = (s.serve kit).turn kit := by
  have hover : s.executor.isOver = false := by
    cases hover : s.executor.isOver with
    | false => rfl
    | true =>
        simp [Session.serve, after, Executor.serve_of_isOver hover] at hidle
        simp [Executor.isOver, hidle] at hover
  cases hserve : s.executor.serve kit s.world with
  | mk e' world' =>
      have hidle' : e'.activity = .idle := by simpa [Session.serve, after, hserve] using hidle
      have hturn := Executor.turn_eq_serve hmove hserve
      rw [hidle'] at hturn
      have hover' : e'.isOver = false := by simp [Executor.isOver, hidle']
      have hresults : e'.results = [] := by simp [Executor.results, hidle']
      simp [Session.turn, Session.serve, after, hserve, hturn, hover, hover', hresults]

theorem turn_of_busy_serve {kit : Toolkit σ} {s : Session σ}
    (hmove : s.executor.activity = .idle → s.executor.queue ≠ [])
    (hbusy : (s.serve kit).executor.activity ≠ .idle) : s.turn kit = s.serve kit := by
  cases hserve : s.executor.serve kit s.world with
  | mk e' world' =>
      have hbusy' : e'.activity ≠ .idle := by simpa [Session.serve, after, hserve] using hbusy
      have hturn : s.executor.turn kit s.world = (e', world') := by
        rw [Executor.turn_eq_serve hmove hserve]
        cases hactivity : e'.activity with
        | idle => exact absurd hactivity hbusy'
        | _ => rfl
      rw [Session.turn, Session.serve, hturn, hserve]

section

variable {kit : Toolkit σ} {chunks : List Chunk} {world : σ} {s : Session σ}

/-- A session at the end of a turn: no move of the executor changes anything, or the last one came
to wait. -/
structure Rested (kit : Toolkit σ) (chunks : List Chunk) (world : σ) (s : Session σ) : Prop where
  reachable : Reachable kit chunks world s
  rests : s.serve kit = s ∨
    ∃ t p, Reachable kit chunks world t ∧ s = t.serve kit ∧ s.executor.activity = .waiting p

theorem Reachable.rested_of_self (h : Reachable kit chunks world s)
    (hturn : s.executor.turn kit s.world = (s.executor, s.world))
    (hserve : s.executor.serve kit s.world = (s.executor, s.world)) :
    Rested kit chunks world (s.turn kit) := by
  rw [Session.turn, hturn, after_self s]
  exact ⟨h, Or.inl (by rw [Session.serve, hserve, after_self s])⟩

/-- The move after which the executor is not idle is the last one of its turn. -/
theorem Reachable.rested_of_busy (h : Reachable kit chunks world s)
    (hmove : s.executor.activity = .idle → s.executor.queue ≠ [])
    (hnext : (s.serve kit).executor.activity ≠ .idle) : Rested kit chunks world (s.turn kit) := by
  rw [turn_of_busy_serve hmove hnext]
  refine ⟨h.serve, ?_⟩
  cases hactivity : (s.serve kit).executor.activity with
  | idle => exact absurd hactivity hnext
  | waiting p => exact Or.inr ⟨s, p, h, rfl, rfl⟩
  | ended r => exact Or.inl (serve_of_isOver (by simp [Executor.isOver, hactivity]))
  | halted f => exact Or.inl (serve_of_isOver (by simp [Executor.isOver, hactivity]))

/-- The turn of an idle executor: the induction is on the length of its queue. -/
theorem Reachable.rested_of_idle {n : Nat} (h : Reachable kit chunks world s)
    (hactivity : s.executor.activity = .idle) (hlength : s.executor.queue.length = n) :
    Rested kit chunks world (s.turn kit) := by
  induction n generalizing s with
  | zero =>
      have hqueue : s.executor.queue = [] := List.length_eq_zero_iff.1 hlength
      exact h.rested_of_self (Executor.turn_of_empty hactivity hqueue)
        (Executor.serve_of_empty hactivity hqueue)
  | succ n ih =>
      obtain ⟨t, rest, hqueue⟩ := List.exists_cons_of_length_eq_add_one hlength
      have hmove : s.executor.activity = .idle → s.executor.queue ≠ [] := by simp [hqueue]
      by_cases hidle : (s.serve kit).executor.activity = .idle
      · rw [turn_of_idle_serve hmove hidle]
        refine ih h.serve hidle ?_
        have hrest : (s.serve kit).executor.queue = rest :=
          (Executor.evaluate_of_idle (Executor.serve_of_queue hactivity hqueue).symm hidle).1
        rw [hqueue, List.length_cons] at hlength
        rw [hrest]
        exact Nat.succ.inj hlength
      · exact h.rested_of_busy hmove hidle

/-- **A whole turn is a sequence of moves.** -/
theorem Reachable.turn (h : Reachable kit chunks world s) :
    Rested kit chunks world (s.turn kit) := by
  cases hactivity : s.executor.activity with
  | idle => exact h.rested_of_idle hactivity rfl
  | waiting p =>
      have hmove : s.executor.activity = .idle → s.executor.queue ≠ [] := by simp [hactivity]
      by_cases hnext : (s.serve kit).executor.activity = .idle
      · rw [turn_of_idle_serve hmove hnext]
        exact h.serve.rested_of_idle hnext rfl
      · exact h.rested_of_busy hmove hnext
  | ended r =>
      have hover : s.executor.isOver = true := by simp [Executor.isOver, hactivity]
      exact h.rested_of_self (Executor.turn_of_isOver hover) (Executor.serve_of_isOver hover)
  | halted f =>
      have hover : s.executor.isOver = true := by simp [Executor.isOver, hactivity]
      exact h.rested_of_self (Executor.turn_of_isOver hover) (Executor.serve_of_isOver hover)

end

section

variable {kit : Toolkit σ} {chunks₀ : List Chunk} {world : σ} {s : Session σ}

theorem read_of_done {r : Reading} (h : s.phase = .done r) : s.read = s := by
  simp [Session.read, h]

theorem read_of_read {r : Reading} (h : s.phase = .read r) :
    s.read =
      { s with
        executor := (s.executor.conclude r).2
        phase := .done r
        early := s.executor.history.length } := by
  simp [Session.read, h]

theorem read_of_chunk {chunk : Chunk} {rest : List Chunk}
    (h : s.phase = .reading [] (chunk :: rest)) :
    s.read = { s with phase := chunk.opening rest } := by
  simp [Session.read, h]

/-- When all chunks are read, the reading is over. -/
theorem read_of_end (h : s.phase = .reading [] []) : s.read = { s with phase := .read .more } := by
  simp [Session.read, h]

/-- Every session has one plan, and what has become ready of it is handed out. -/
theorem Reachable.single (h : Reachable kit chunks₀ world s) :
    ∃ a, s.executor.plans = #[a] ∧ a.intake.Sound := by
  induction h with
  | start => exact ⟨{}, rfl, Intake.sound_fresh⟩
  | @read s _ ih =>
      obtain ⟨a, hplans, hsound⟩ := ih
      cases hphase : s.phase with
      | done r => exact ⟨a, by rw [read_of_done hphase, hplans], hsound⟩
      | read r => exact ⟨a, by rw [read_of_read hphase, Executor.conclude_plans, hplans], hsound⟩
      | reading text chunks =>
          cases text with
          | cons c text =>
              rw [read_character hplans hsound hphase]
              exact ⟨_, rfl, (hsound.feed [c]).1⟩
          | nil =>
              refine ⟨a, ?_, hsound⟩
              cases chunks with
              | nil => rw [read_of_end hphase, hplans]
              | cons chunk rest => rw [read_of_chunk hphase, hplans]
  | @serve s _ ih =>
      obtain ⟨a, hplans, hsound⟩ := ih
      obtain ⟨bindings, hserve⟩ := Executor.serve_single kit s.world hplans
      exact ⟨_, hserve, hsound⟩

/-- A whole chunk is read by moves of the reader. -/
theorem Reachable.readChunk (h : Reachable kit chunks₀ world s) {chunk : Chunk}
    {rest : List Chunk} (hphase : s.phase = .reading [] (chunk :: rest)) :
    Reachable kit chunks₀ world
      { s with
        executor := (s.executor.take chunk).1
        phase := (s.executor.take chunk).2.2.leadsTo (.reading [] rest) } := by
  obtain ⟨a, hplans, hsound⟩ := h.single
  have hread := h.read
  rw [read_of_chunk hphase] at hread
  cases htext : chunk.text? with
  | error f =>
      rw [Executor.take_of_textless hplans (Or.inr ⟨f, htext, rfl⟩)]
      simpa [Chunk.opening, htext, Reading.leadsTo] using hread
  | ok text? =>
      cases text? with
      | none =>
          rw [Executor.take_of_textless hplans (Or.inl ⟨htext, rfl⟩)]
          simpa [Chunk.opening, htext, Reading.leadsTo] using hread
      | some text =>
          rw [Executor.take_of_text htext]
          obtain ⟨hexecutor, hreading⟩ := Executor.take_text hplans hsound text
          rw [hexecutor, hreading]
          simp only [Chunk.opening, htext] at hread
          exact hread.readText hplans hsound rfl

/-- A whole plan is read by moves of the reader. -/
theorem Reachable.readAll (h : Reachable kit chunks₀ world s) {chunks : List Chunk}
    (hphase : s.phase = .reading [] chunks) :
    Reachable kit chunks₀ world
      { s with
        executor := (s.executor.takeAll chunks).1
        phase := .read (s.executor.takeAll chunks).2.2 } := by
  induction chunks generalizing s with
  | nil =>
      have hread := h.read
      rw [read_of_end hphase] at hread
      exact hread
  | cons chunk rest ih =>
      have hchunk := h.readChunk hphase
      simp only [Executor.takeAll]
      cases htake : s.executor.take chunk with
      | mk e out =>
          obtain ⟨shown, r⟩ := out
          rw [htake] at hchunk
          cases r with
          | more => exact ih hchunk rfl
          | closed => exact hchunk
          | failed f => exact hchunk

/-- Executing a plan after it has been read is a session. -/
theorem rested_deferred (kit : Toolkit σ) (chunks : List Chunk) (world : σ) :
    ∃ s r, Rested kit chunks world s ∧ s.phase = .done r ∧
      s.executor = ((Executor.read {} chunks).2.1.turn kit world).1 ∧
      s.world = ((Executor.read {} chunks).2.1.turn kit world).2 ∧
      s.early = (({} : Executor).openPlan.takeAll chunks).1.history.length := by
  have hstart : Reachable kit chunks world (start chunks world) := .start
  have hread := (hstart.readAll rfl).read
  rw [read_of_read rfl] at hread
  exact ⟨_, _, hread.turn, rfl, rfl, rfl, rfl⟩

/-- Reading chunks with a turn after each is a sequence of moves. -/
theorem Reachable.streamFrom (h : Reachable kit chunks₀ world s) {chunks : List Chunk}
    (hphase : s.phase = .reading [] chunks) :
    ∃ t, Reachable kit chunks₀ world t ∧
      t.executor = (Executor.streamFrom kit chunks s.executor s.world).1 ∧
      t.world = (Executor.streamFrom kit chunks s.executor s.world).2.1 ∧
      t.phase = .read (Executor.streamFrom kit chunks s.executor s.world).2.2.2.2 := by
  induction chunks generalizing s with
  | nil => exact ⟨_, h.readAll hphase, rfl, rfl, rfl⟩
  | cons chunk rest ih =>
      have hchunk := h.readChunk hphase
      simp only [Executor.streamFrom]
      cases htake : s.executor.take chunk with
      | mk e out =>
          obtain ⟨shown, r⟩ := out
          rw [htake] at hchunk
          cases r with
          | more => exact ih hchunk.turn.reachable rfl
          | closed => exact ⟨_, hchunk, rfl, rfl, rfl⟩
          | failed f => exact ⟨_, hchunk, rfl, rfl, rfl⟩

/-- Reading a plan with a turn after each chunk and one at the end is a session. -/
theorem rested_streamed (kit : Toolkit σ) (chunks : List Chunk) (world : σ) :
    ∃ s r, Rested kit chunks world s ∧ s.phase = .done r ∧
      s.executor = (Executor.stream kit {} chunks world).2.2.1 ∧
      s.world = (Executor.stream kit {} chunks world).2.2.2.1 := by
  have hstart : Reachable kit chunks world (start chunks world) := .start
  obtain ⟨t, ht, hexecutor, hworld, hphase⟩ := hstart.streamFrom rfl
  have hread := ht.read
  rw [read_of_read hphase] at hread
  refine ⟨_, _, hread.turn, rfl, ?_, ?_⟩
  · simp only [Session.turn, after, hexecutor, hworld]
    rfl
  · simp only [Session.turn, after, hexecutor, hworld]
    rfl

end

end Session

end DronePilot.Plan
