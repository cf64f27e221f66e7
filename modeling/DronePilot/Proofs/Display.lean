import DronePilot.Chat.Page
import DronePilot.Proofs.Messages
import Mathlib.Data.List.DropRight

/-!
# A plan on the chat page

While a plan is read, every chunk of it is sent to the page with two backslashes behind it, the mark
of a message that goes on in the same line.  The page takes the mark off by dropping all backslashes
at the end, and it begins a new line wherever a message looks like a log line.  So the page shows a
chunk as it is unless the chunk ends with a backslash of its own or begins like a log line, and one
chunk cannot make up for what another one loses or gains.

* `shownText_chunkMessage` — what the page shows of one chunk.
* `flatMap_shownOf_eq_iff` — chunks are shown as the text that they make up exactly if each of them is
  shown as it is.
* `Intake.shown_takeAll` — what the page shows of a plan, up to where its reading stops.
* `showMessages_texts` — how the answer on the page grows with it.
* `streamed_plan_shown_iff` — when the page shows a plan as it was streamed.
-/

namespace DronePilot.Chat

open DronePilot.Plan DronePilot.Pilot

/-! ### One chunk -/

/-- How a log line begins. -/
def logMark : List Char := "[LOG]".toList

/-- What the page shows of a chunk: all but the backslashes at its end, in a new line if it begins
like a log line. -/
def shownOf (s : List Char) : List Char :=
  (if logMark <+: s then ['\n'] else []) ++ s.rdropWhile (· == '\\')

/-- A text that neither begins like a log line nor ends with a backslash. -/
def Unmarked (s : List Char) : Prop :=
  ¬logMark <+: s ∧ s.getLast? ≠ some '\\'

instance (s : List Char) : Decidable (Unmarked s) :=
  inferInstanceAs (Decidable (_ ∧ _))

/-- The mark at the end of a message does not make it look like a log line. -/
theorem logMark_prefix_continuation {s : List Char} :
    logMark <+: s ++ continuation ↔ logMark <+: s := by
  refine ⟨fun h => ?_, fun h => h.trans (List.prefix_append s continuation)⟩
  rcases List.prefix_or_prefix_of_prefix h (List.prefix_append s continuation) with hs | ⟨r, hr⟩
  · exact hs
  · rw [← hr, List.prefix_append_right_inj] at h
    cases r with
    | nil => exact ⟨[], by rw [← hr, List.append_nil, List.append_nil]⟩
    | cons c r =>
        -- The rest of a log mark would begin with a backslash.
        have hc : c = '\\' := (List.cons_prefix_cons.1 h).1
        have hmem : c ∈ logMark := by simp [← hr]
        rw [hc] at hmem
        exact absurd hmem (by decide)

/-- **One chunk**: the page shows it without the backslashes at its end. -/
theorem shownText_chunkMessage (s : String) :
    shownText (chunkMessage s) = String.ofList (shownOf s.toList) := by
  have hmessage : (chunkMessage s).toList = s.toList ++ continuation := by
    simp [chunkMessage, continuation]
  have hsuffix : continuation.isSuffixOf (s.toList ++ continuation) = true :=
    List.isSuffixOf_iff_suffix.2 (List.suffix_append _ _)
  have hdrop : ((s.toList ++ continuation).reverse.dropWhile (· == '\\')).reverse =
      s.toList.rdropWhile (· == '\\') := by
    simp [continuation, List.rdropWhile]
  have hlog : "[LOG]".toList.isPrefixOf (s.toList ++ continuation) = decide (logMark <+: s.toList) := by
    rw [Bool.eq_iff_iff, List.isPrefixOf_iff_prefix, decide_eq_true_eq]
    exact logMark_prefix_continuation
  simp only [shownText, hmessage, hsuffix, if_true, hdrop, hlog, decide_eq_true_eq]
  rw [shownOf, String.ofList_append]
  split <;> rfl

/-- A text and the backslashes at its end, which the page drops. -/
theorem exists_trailing (s : List Char) :
    ∃ t n, s = t ++ List.replicate n '\\' ∧ s.rdropWhile (· == '\\') = t ∧
      t.getLast? ≠ some '\\' := by
  refine ⟨s.rdropWhile (· == '\\'), (s.rtakeWhile (· == '\\')).length, ?_, rfl, ?_⟩
  · have htrailing : s.rtakeWhile (· == '\\') =
        List.replicate (s.rtakeWhile (· == '\\')).length '\\' :=
      List.eq_replicate_of_mem fun c hc => by simpa using List.mem_rtakeWhile_imp hc
    rw [← htrailing]
    exact (List.rdropWhile_append_rtakeWhile).symm
  · intro hlast
    have hne : s.rdropWhile (· == '\\') ≠ [] := by
      intro hnil
      rw [hnil] at hlast
      cases hlast
    have hnot := List.rdropWhile_last_not (· == '\\') s hne
    rw [List.getLast?_eq_some_getLast hne, Option.some.injEq] at hlast
    exact hnot (by simp [hlast])

/-! ### Many chunks -/

/-- A text that begins with a run of one character and then repeats itself has no other character. -/
theorem eq_of_prefix_replicate {x : Char} {n : Nat} {t : List Char}
    (h : t <+: List.replicate (n + 1) x ++ t) : ∀ c ∈ t, c = x := by
  induction t with
  | nil => exact fun c hc => absurd hc List.not_mem_nil
  | cons c t ih =>
      rw [List.replicate_succ, List.cons_append, List.cons_prefix_cons] at h
      obtain ⟨rfl, h⟩ := h
      have hnext : List.replicate n c ++ c :: t = List.replicate (n + 1) c ++ t := by
        rw [List.replicate_succ', List.append_assoc, List.singleton_append]
      rw [hnext] at h
      exact List.forall_mem_cons.2 ⟨rfl, ih h⟩

theorem eq_nil_of_prefix_replicate {x : Char} {n : Nat} {t : List Char}
    (h : t <+: List.replicate (n + 1) x ++ t) (hlast : t.getLast? ≠ some x) : t = [] := by
  cases t using List.reverseRecOn with
  | nil => rfl
  | append_singleton t c =>
      have hc : c = x := eq_of_prefix_replicate h c (by simp)
      exact absurd (by rw [List.getLast?_concat, hc]) hlast

/-- **A backslash that was dropped is not made up for** by the chunks behind it. -/
theorem flatMap_shownOf_ne (ss : List (List Char)) (n : Nat) (u : List Char) :
    ss.flatMap shownOf ≠ List.replicate (n + 1) '\\' ++ (ss.flatten ++ u) := by
  -- What was dropped so far is a run of backslashes, with which the text goes on.  It grows with the
  -- chunks that are backslashes only; any other chunk shows something else first.
  induction ss generalizing n with
  | nil => simp [List.replicate_succ]
  | cons s ss ih =>
      intro heq
      rw [List.flatMap_cons, List.flatten_cons, shownOf] at heq
      obtain ⟨t, k, hs, hdrop, hlast⟩ := exists_trailing s
      split at heq
      · simp [List.replicate_succ] at heq
      · rw [hdrop, List.nil_append, hs, List.append_assoc, List.append_assoc] at heq
        have hbegins : t <+: List.replicate (n + 1) '\\' ++ t := by
          have hlonger : t.length ≤ (List.replicate (n + 1) '\\' ++ t).length := by simp
          refine List.prefix_of_prefix_length_le ⟨_, heq⟩ ?_ hlonger
          rw [← List.append_assoc]
          exact List.prefix_append _ _
        have ht : t = [] := eq_nil_of_prefix_replicate hbegins hlast
        rw [ht, List.nil_append, List.nil_append, ← List.append_assoc,
          List.replicate_append_replicate, Nat.add_right_comm] at heq
        exact ih (n + k) heq

/-- **Chunks are shown as the text that they make up** exactly if each is shown as it is and nothing
is left over. -/
theorem flatMap_shownOf_eq_iff (ss : List (List Char)) (u : List Char) :
    ss.flatMap shownOf = ss.flatten ++ u ↔ (∀ s ∈ ss, Unmarked s) ∧ u = [] := by
  induction ss with
  | nil => simp [eq_comm]
  | cons s ss ih =>
      rw [List.flatMap_cons, List.flatten_cons, List.append_assoc, List.forall_mem_cons, and_assoc,
        ← ih, shownOf, Unmarked]
      obtain ⟨t, n, hs, hdrop, hlast⟩ := exists_trailing s
      split
      · rename_i hlog
        refine iff_of_false (fun heq => ?_) (fun h => h.1.1 hlog)
        -- The line end before a log line stands where the text has a bracket.
        obtain ⟨r, rfl⟩ := hlog
        have hfirst : some '\n' = some '[' := congrArg List.head? heq
        exact absurd hfirst (by decide)
      · rename_i hlog
        rw [hdrop, List.nil_append]
        cases n with
        | zero =>
            rw [List.replicate_zero, List.append_nil] at hs
            subst hs
            simp [hlog, hlast]
        | succ n =>
            have hends : s.getLast? = some '\\' := by
              rw [hs, List.replicate_succ', ← List.append_assoc, List.getLast?_concat]
            have hne := flatMap_shownOf_ne ss n u
            rw [hs, List.append_assoc, List.append_cancel_left_eq, ← hs]
            simp [hends, hne]

end DronePilot.Chat

/-! ### The messages of a plan -/

namespace DronePilot.Plan

open DronePilot.Chat

/-- The message that shows a chunk, if the chunk has any text. -/
def Chunk.messages (chunk : Chunk) : List String :=
  if chunk.content = [] then [] else [chunkMessage (String.ofList chunk.content)]

/-- The chunks that are taken, the last of them the one that stops the reading, and the chunks behind
it. -/
def Intake.divide (i : Intake) : List Chunk → List Chunk × List Chunk
  | [] => ([], [])
  | chunk :: rest =>
    match i.take chunk with
    | (i', _, .more) => (chunk :: (i'.divide rest).1, (i'.divide rest).2)
    | _ => ([chunk], rest)

theorem Intake.messages_of_text (i : Intake) {chunk : Chunk} {s : String}
    (h : chunk.text? = .ok (some s)) :
    (i.take chunk).2.1 = if s.toList = [] then [] else [chunkMessage (String.ofList s.toList)] := by
  rw [Intake.take, h]
  by_cases hs : s = "" <;> simp [hs]

theorem Intake.messages_take (i : Intake) (chunk : Chunk) :
    (i.take chunk).2.1 = chunk.messages := by
  cases chunk with
  | text s => exact i.messages_of_text rfl
  | delta s =>
      cases s with
      | none => rfl
      | some s => exact i.messages_of_text rfl
  | other => rfl

/-- **The messages of a plan** are those of the chunks that are taken.  The others stand behind them,
and there are none unless something stops the reading. -/
theorem Intake.takeAll_divide (i : Intake) (chunks : List Chunk) :
    (i.takeAll chunks).2.1 = (i.divide chunks).1.flatMap Chunk.messages ∧
      (i.divide chunks).1 ++ (i.divide chunks).2 = chunks ∧
      ((i.takeAll chunks).2.2 = .more → (i.divide chunks).2 = []) := by
  induction chunks generalizing i with
  | nil => exact ⟨rfl, rfl, fun _ => rfl⟩
  | cons chunk rest ih =>
      have hfirst := i.messages_take chunk
      rw [Intake.takeAll, Intake.divide]
      generalize i.take chunk = step at hfirst
      obtain ⟨i', shown, r⟩ := step
      dsimp only at hfirst
      cases r with
      | more =>
          obtain ⟨hmessages, hsplit, hmore⟩ := ih i'
          refine ⟨?_, congrArg (chunk :: ·) hsplit, hmore⟩
          rw [List.flatMap_cons, ← hmessages, ← hfirst]
      | closed => exact ⟨by simpa using hfirst, rfl, fun h => by cases h⟩
      | failed f => exact ⟨by simpa using hfirst, rfl, fun h => by cases h⟩

/-- An executor that reads its newest plan sends the same messages. -/
theorem Executor.messages_takeAll {e : Executor} {a : Assignment} (h : e.plans.back? = some a)
    (chunks : List Chunk) : (e.takeAll chunks).2.1 = (a.intake.takeAll chunks).2.1 := by
  induction chunks generalizing e a with
  | nil => rfl
  | cons chunk rest ih =>
      rw [Executor.takeAll, Intake.takeAll, Executor.take, h]
      dsimp only
      obtain ⟨i', shown, r⟩ := a.intake.take chunk
      cases r with
      | more =>
          refine congrArg (shown ++ ·) (ih (a := { a with intake := i' }) ?_)
          have hsize : e.plans[e.plans.size - 1]? = some a := h
          simp [Array.back?, Array.getElem?_modify, hsize]
      | closed => rfl
      | failed f => rfl

theorem Chunk.shown_messages (chunk : Chunk) :
    String.join (chunk.messages.map shownText) = String.ofList (shownOf chunk.content) := by
  unfold Chunk.messages
  split
  · rename_i hnone
    rw [hnone]
    rfl
  · simp [shownText_chunkMessage]

/-- **What the page shows of a plan.** -/
theorem Intake.shown_takeAll (i : Intake) (chunks : List Chunk) :
    String.join ((i.takeAll chunks).2.1.map shownText) =
      String.ofList (((i.divide chunks).1.map Chunk.content).flatMap shownOf) := by
  rw [(i.takeAll_divide chunks).1]
  generalize (i.divide chunks).1 = taken
  induction taken with
  | nil => rfl
  | cons chunk taken ih =>
      rw [List.flatMap_cons, List.map_append, List.map_cons, List.flatMap_cons, String.ofList_append,
        ← chunk.shown_messages, ← ih]
      simp [String.join_append]

/-- The messages of a plan end with the mark, so none of them is the last message of a task. -/
theorem Intake.messages_ne_end (i : Intake) (chunks : List Chunk) :
    ∀ m ∈ (i.takeAll chunks).2.1, m ≠ Pilot.endMessage := by
  rw [(i.takeAll_divide chunks).1]
  intro m hm
  obtain ⟨chunk, -, hm⟩ := List.mem_flatMap.1 hm
  unfold Chunk.messages at hm
  split at hm
  · cases hm
  · rw [List.mem_singleton.1 hm]
    exact fun heq => Pilot.chunkMessage_ne_end _ (congrArg Message.text heq)

end DronePilot.Plan

/-! ### The answer on the page -/

namespace DronePilot.Chat

open DronePilot.Plan DronePilot.Pilot

/-- What is shown after each of some texts. -/
def responses (shown : String) : List String → List String
  | [] => []
  | m :: ms => (shown ++ shownText m) :: responses (shown ++ shownText m) ms

/-- An answer with some texts shown before it. -/
def Answer.behind (a : Answer) (shown : String) (ms : List String) : Answer :=
  { a with shown := responses shown ms ++ a.shown }

/-- **The answer grows with each text**, until the last message. -/
theorem showMessages_texts {ms : List String} (h : ∀ m ∈ ms, m ≠ endMessage) (cause : Option Halt)
    (shown : String) (rest : List Message) :
    showMessages cause shown (ms.map .text ++ rest) =
      (showMessages cause (shown ++ String.join (ms.map shownText)) rest).behind shown ms := by
  induction ms generalizing shown with
  | nil => simp [Answer.behind, responses]
  | cons m ms ih =>
      obtain ⟨hm, hms⟩ := List.forall_mem_cons.1 h
      rw [List.map_cons, List.cons_append, showMessages, if_neg hm]
      dsimp only
      rw [ih hms]
      simp [Answer.behind, responses, String.append_assoc]

/-- **When the page shows a plan as it was streamed.**  Take any plan, begun or not, and any chunks
that are read into it.  None of the messages that are sent is taken for the last one of the task.
Whatever the page shows before them and gets after them, it adds a text of its own for each of them,
and the messages are the same when the plan is executed while it is read.  What is added for all of
them is the text of the chunks exactly if no chunk that is taken begins like a log line or ends with
a backslash, and no chunk with text is left behind those that are taken; where nothing stops the
reading, none is. -/
theorem streamed_plan_shown_iff (i : Intake) (chunks : List Chunk) :
    (∀ m ∈ (i.takeAll chunks).2.1, m ≠ endMessage) ∧
    (∀ ms, ms ⊆ (i.takeAll chunks).2.1 → ∀ cause shown rest,
      showMessages cause shown (ms.map .text ++ rest) =
        (showMessages cause (shown ++ String.join (ms.map shownText)) rest).behind shown ms) ∧
    (∀ (e : Executor) (a : Assignment), e.plans.back? = some a → a.intake = i →
      (e.takeAll chunks).2.1 = (i.takeAll chunks).2.1) ∧
    (String.join ((i.takeAll chunks).2.1.map shownText) =
        String.ofList (chunks.flatMap Chunk.content) ↔
      (∀ chunk ∈ (i.divide chunks).1, Unmarked chunk.content) ∧
        (i.divide chunks).2.flatMap Chunk.content = []) ∧
    (i.divide chunks).1 ++ (i.divide chunks).2 = chunks ∧
    ((i.takeAll chunks).2.2 = .more → (i.divide chunks).2 = []) := by
  obtain ⟨-, hsplit, hmore⟩ := i.takeAll_divide chunks
  refine ⟨i.messages_ne_end chunks, ?_, ?_, ?_, hsplit, hmore⟩
  · intro ms hms cause shown rest
    exact showMessages_texts (fun m hm => i.messages_ne_end chunks m (hms hm)) cause shown rest
  · rintro e a hplans rfl
    exact Executor.messages_takeAll hplans chunks
  · have htext : chunks.flatMap Chunk.content =
        ((i.divide chunks).1.map Chunk.content).flatten ++
          (i.divide chunks).2.flatMap Chunk.content := by
      conv => lhs; rw [← hsplit]
      rw [List.flatMap_append, List.flatMap_def]
    rw [i.shown_takeAll, htext, String.ofList_inj, flatMap_shownOf_eq_iff, List.forall_mem_map]

/-- A plan whose chunks have no marks in them is shown as it is. -/
theorem streamed_plan_shown_iff_cutSearch :
    (({} : Intake).takeAll cutSearch).2.2 = .more ∧
    (∀ chunk ∈ cutSearch, Unmarked chunk.content) ∧
    String.join ((({} : Intake).takeAll cutSearch).2.1.map shownText) =
      "?seen\x7b2\x7bturn(9);\x7d\x7ddone;" := by
  obtain ⟨-, -, -, hshown, hsplit, hmore⟩ := streamed_plan_shown_iff {} cutSearch
  have hread : (({} : Intake).takeAll cutSearch).2.2 = .more := rfl
  have hunmarked : ∀ chunk ∈ cutSearch, Unmarked chunk.content := by decide
  have hleft := hmore hread
  rw [hleft, List.append_nil] at hsplit
  rw [hsplit, hleft] at hshown
  exact ⟨hread, hunmarked, hshown.2 ⟨hunmarked, rfl⟩⟩

/-- **A backslash of the plan is lost on the page.**  The plan is streamed character by character, and
nothing is shown for the chunk that is a backslash. -/
theorem page_drops_backslash :
    (showMessages none ""
        ((({} : Executor).read (planChunks "log('a\\b');")).2.2.map .text)).shown.getLast? =
      some "log('ab');" ∧
    String.ofList ((planChunks "log('a\\b');").flatMap Chunk.content) = "log('a\\b');" ∧
    "log('ab');" ≠ "log('a\\b');" :=
  ⟨rfl, rfl, by decide⟩

end DronePilot.Chat
