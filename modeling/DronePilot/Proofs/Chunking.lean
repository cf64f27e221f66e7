import DronePilot.Proofs.Course
import DronePilot.Proofs.Nesting

/-!
# Plans that arrive in pieces

A plan is streamed: it arrives as a list of chunks, some of them without text, cut wherever the
sender happened to cut it.  The reader stops in the middle of a chunk at a closing brace too many or
at a character that it cannot take.

`Intake.feed_append` is what makes the cuts immaterial: reading a text in two parts is reading it at
once, with the second part left alone when the first one stops the reading.  From it come the
reading of a list of chunks in one go (`Intake.readAll_eq_feed`) and one by one
(`Intake.takeEach_eq_feed`).
-/

namespace DronePilot.Plan

/-- The characters of a chunk. -/
def Chunk.content : Chunk → List Char
  | .text s | .delta (some s) => s.toList
  | .delta none | .other => []

/-- Takes each chunk by a reading of its own, whatever came of the one before, and lists what each
of them comes to. -/
def Intake.takeEach (i : Intake) : List Chunk → Intake × List Reading
  | [] => (i, [])
  | chunk :: rest =>
    let (i', r) := i.readAll [chunk]
    let (i'', rs) := i'.takeEach rest
    (i'', r :: rs)

/-- **Reading a text in two parts.** -/
theorem Intake.feed_append (i : Intake) (text more : List Char) :
    i.feed (text ++ more) =
      match i.feed text with
      | (i', .more) => i'.feed more
      | stopped => stopped := by
  induction text generalizing i with
  | nil => rfl
  | cons c text ih =>
      rw [List.cons_append, Intake.feed, Intake.feed]
      cases i.program.step c with
      | error f => rfl
      | ok s =>
          cases hclosed : s.closed with
          | true => simp [hclosed]
          | false => simpa [hclosed] using ih (i.after s)

theorem Intake.take_of_text (i : Intake) {chunk : Chunk} {s : String}
    (h : chunk.text? = .ok (some s)) :
    ((i.take chunk).1, (i.take chunk).2.2) = i.feed s.toList := by
  rw [Intake.take, h]
  by_cases hs : s = ""
  · subst hs
    rfl
  · simp [hs]

/-- A chunk is read as its characters. -/
theorem Intake.take_eq_feed (i : Intake) {chunk : Chunk} (h : chunk ≠ .other) :
    ((i.take chunk).1, (i.take chunk).2.2) = i.feed chunk.content := by
  cases chunk with
  | text s => exact Intake.take_of_text i rfl
  | delta s =>
      cases s with
      | none => rfl
      | some s => exact Intake.take_of_text i rfl
  | other => exact absurd rfl h

/-- Chunks are read as the text that they make up. -/
theorem Intake.readAll_eq_feed (i : Intake) {chunks : List Chunk}
    (h : ∀ chunk ∈ chunks, chunk ≠ .other) :
    i.readAll chunks = i.feed (chunks.flatMap Chunk.content) := by
  induction chunks generalizing i with
  | nil => rfl
  | cons chunk rest ih =>
      obtain ⟨hchunk, hrest⟩ := List.forall_mem_cons.1 h
      rw [List.flatMap_cons, Intake.feed_append, ← Intake.take_eq_feed i hchunk, Intake.readAll,
        Intake.takeAll]
      obtain ⟨i', shown, r⟩ := i.take chunk
      cases r with
      | more => exact ih i' hrest
      | closed => rfl
      | failed f => rfl

theorem Intake.readAll_text (i : Intake) (text : List Char) :
    i.readAll [.text (String.ofList text)] = i.feed text := by
  rw [Intake.readAll_eq_feed i (by simp)]
  simp [Chunk.content]

/-- Chunks that are taken one by one, none of which stops the reading, are read as the text that
they make up. -/
theorem Intake.takeEach_eq_feed (i : Intake) {chunks : List Chunk}
    (h : ∀ chunk ∈ chunks, chunk ≠ .other) (hmore : ∀ r ∈ (i.takeEach chunks).2, r = .more) :
    i.feed (chunks.flatMap Chunk.content) = ((i.takeEach chunks).1, .more) := by
  induction chunks generalizing i with
  | nil => rfl
  | cons chunk rest ih =>
      obtain ⟨hchunk, hrest⟩ := List.forall_mem_cons.1 h
      obtain ⟨hfirst, hlater⟩ := List.forall_mem_cons.1 hmore
      have hread : i.feed chunk.content = i.readAll [chunk] := by
        rw [Intake.readAll_eq_feed i (List.forall_mem_singleton.2 hchunk)]
        simp
      have hnext : i.readAll [chunk] = ((i.readAll [chunk]).1, .more) := Prod.ext rfl hfirst
      rw [List.flatMap_cons, Intake.feed_append, hread, hnext]
      exact ih _ hrest hlater

/-- **The cuts do not matter.**  Chunks that are text, or streamed pieces with or without text, lead
to the plan, the positions handed out and the outcome of the single text that they make up: when
they are read in one go, and when each is read on its own and none before the last stops the
reading.  Every closed block in the plan, at any depth, stands in that text, and its body is what a
fresh reader makes of the text between its braces and of the closing one. -/
theorem reading_ignores_cuts (chunks : List Chunk) (hchunks : ∀ chunk ∈ chunks, chunk ≠ .other) :
    let text := chunks.flatMap Chunk.content
    let whole := ({} : Intake).readAll [.text (String.ofList text)]
    ({} : Intake).readAll chunks = whole ∧
    (∀ before last, chunks = before ++ [last] →
      (∀ r ∈ (({} : Intake).takeEach before).2, r = .more) →
      (({} : Intake).takeEach before).1.readAll [last] = whole) ∧
    (∀ path d head body,
      (({} : Intake).readAll chunks).1.program.Locates path (.block d head body) →
      body.finished = true → ClosedIn text path d head body) := by
  have hwhole := Intake.readAll_eq_feed {} hchunks
  refine ⟨?_, ?_, ?_⟩
  · rw [hwhole, Intake.readAll_text]
  · rintro before last rfl hmore
    obtain ⟨hbefore, hlast⟩ := List.forall_mem_append.1 hchunks
    rw [Intake.readAll_text, List.flatMap_append, Intake.feed_append,
      Intake.takeEach_eq_feed {} hbefore hmore, Intake.readAll_eq_feed _ hlast]
  · intro path d head body hpath hfinished
    rw [hwhole] at hpath
    exact closedIn_of_locates hpath hfinished rfl

/-- A search whose inner loop is cut in the middle of its head and of its body. -/
def cutSearch : List Chunk :=
  [.text "?seen\x7b2", .delta none, .delta (some "\x7bturn("), .text "", .text "9);\x7d\x7ddone;"]

theorem reading_ignores_cuts_cutSearch :
    (∀ chunk ∈ cutSearch, chunk ≠ .other) ∧
    ({} : Intake).readAll cutSearch =
      ({} : Intake).readAll [.text "?seen\x7b2\x7bturn(9);\x7d\x7ddone;"] ∧
    (({} : Intake).takeEach cutSearch.dropLast).1.readAll [.text "9);\x7d\x7ddone;"] =
      ({} : Intake).readAll [.text "?seen\x7b2\x7bturn(9);\x7d\x7ddone;"] ∧
    (∃ d head body,
      (({} : Intake).readAll cutSearch).1.program.Locates [0, 0] (.block d head body) ∧
      ClosedIn "?seen\x7b2\x7bturn(9);\x7d\x7ddone;".toList [0, 0] d head body) := by
  have hchunks : ∀ chunk ∈ cutSearch, chunk ≠ .other := by simp [cutSearch]
  obtain ⟨hwhole, hone, hblocks⟩ := reading_ignores_cuts cutSearch hchunks
  have hmore : (({} : Intake).takeEach cutSearch.dropLast).2 = [.more, .more, .more, .more] := rfl
  have hpath : (({} : Intake).readAll cutSearch).1.program.Locates [0, 0] _ :=
    .inside rfl (.here rfl)
  exact ⟨hchunks, hwhole, hone _ _ rfl (by simp [hmore]), _, _, _, hpath, hblocks _ _ _ _ hpath rfl⟩

end DronePilot.Plan
