import DronePilot.Proofs.Pairing
import Mathlib.Data.List.Induction

/-!
# Frames left behind

A service on this computer is asked about one frame at a time and answers before anything else
happens, so there is no need to number the frames: a result belongs to the oldest frame that is
kept.  But a frame is kept before the service is asked, and if the service fails, or its answer is
no document, nobody takes the frame away again.  From then on every result is published with a frame
that is too old, one more for each failure.

* `Exchange.Keeping.failed`, `Exchange.Keeping.answered` — what one call does to the frames kept.
* `Exchange.keeping_detectEach` — what a sequence of calls does to them.
* `local_result_published_with` — with which frame a result is published.
-/

namespace DronePilot.Detector

variable {φ : Type}

/-- An answer that is no document takes no frame away. -/
theorem Client.hear_of_error {c : Client φ} {text : String} {f : Fault}
    (hread : Document.read text = .error f) : c.hear text = (.error f, c) := by
  simp only [hear, hread]

/-- A result takes the oldest frame away. -/
theorem Client.hear_of_ok {c : Client φ} {text : String} {result : Document} {p : Parcel φ}
    {rest : List (Parcel φ)} (hread : Document.read text = .ok result)
    (hattached : c.attached = true) (hparcels : c.parcels = p :: rest) :
    c.hear text = (.ok (some (p, result)), { c with parcels := rest }) := by
  simp only [hear, hread, hattached, hparcels]

/-- A frame that a service on this computer is asked about, and what becomes of the request: the
text of the answer, or a failure. -/
structure LocalCall (φ : Type) where
  frame : φ
  conf : Value := localConf
  reply : Except Fault String

namespace LocalCall

/-- The result of a call, if the answer is a document. -/
def result? (c : LocalCall φ) : Except Fault Document := do
  Document.read (← c.reply)

/-- The call has a result. -/
def succeeds (c : LocalCall φ) : Bool := c.result?.isOk

/-- The frames that are left behind by a sequence of calls: each one that succeeds takes away the
oldest. -/
def backlog (calls : List (LocalCall φ)) : List φ :=
  (calls.map frame).drop (calls.countP succeeds)

theorem succeeds_of_ok {c : LocalCall φ} {result : Document} (h : c.result? = .ok result) :
    c.succeeds = true := by
  rw [succeeds, h]
  rfl

theorem succeeds_of_error {c : LocalCall φ} {f : Fault} (h : c.result? = .error f) :
    c.succeeds = false := by
  rw [succeeds, h]
  rfl

/-- A further frame is left behind the others. -/
theorem drop_frames (calls : List (LocalCall φ)) (c : LocalCall φ) :
    ((calls ++ [c]).map frame).drop (calls.countP succeeds) = backlog calls ++ [c.frame] := by
  have hcount : calls.countP succeeds ≤ (calls.map frame).length := by
    simpa using List.countP_le_length
  rw [List.map_append, List.drop_append_of_le_length hcount, backlog]
  rfl

/-- A frame whose detection failed stays in the backlog. -/
theorem backlog_of_error {calls : List (LocalCall φ)} {c : LocalCall φ} {f : Fault}
    (h : c.result? = .error f) : backlog (calls ++ [c]) = backlog calls ++ [c.frame] := by
  have hcount : (calls ++ [c]).countP succeeds = calls.countP succeeds := by
    simp [List.countP_append, succeeds_of_error h]
  rw [backlog, hcount, drop_frames]

/-- One that succeeds takes the oldest frame out of it. -/
theorem backlog_of_ok {calls : List (LocalCall φ)} {c : LocalCall φ} {result : Document}
    (h : c.result? = .ok result) :
    backlog (calls ++ [c]) = (backlog calls ++ [c.frame]).tail := by
  have hcount : (calls ++ [c]).countP succeeds = calls.countP succeeds + 1 := by
    simp [List.countP_append, succeeds_of_ok h]
  rw [backlog, hcount, ← List.tail_drop, drop_frames]

end LocalCall

namespace Exchange

variable {e : Exchange φ} {frames : List φ} {c : LocalCall φ} {result : Document} {f : Fault}

/-- An exchange that keeps frames for the results of a service on this computer, oldest first. -/
structure Keeping (e : Exchange φ) (frames : List φ) : Prop where
  link : e.client.link = .direct
  attached : e.client.attached = true
  parcels : e.client.parcels = frames.map (Parcel.mk none)

/-- Asks about frames one after the other. -/
def detectEach (e : Exchange φ) (calls : List (LocalCall φ)) : Exchange φ :=
  calls.foldl (fun e c => (e.detectWith c.frame c.conf c.reply).2) e

theorem detectEach_concat (e : Exchange φ) (calls : List (LocalCall φ)) (c : LocalCall φ) :
    e.detectEach (calls ++ [c]) = ((e.detectEach calls).detectWith c.frame c.conf c.reply).2 := by
  simp [detectEach]

/-- Asking keeps the frame. -/
theorem Keeping.ask (h : e.Keeping frames) (frame : φ) (conf : Value) :
    e.client.ask frame conf =
      (.ok (.direct streamMethod .null conf Vision.cameraWidth Vision.cameraHeight),
        { e.client with parcels := (frames ++ [frame]).map (Parcel.mk none) }) := by
  simp [Client.ask, Client.keep, h.link, h.parcels]

/-- **A call without a result** leaves its frame behind and publishes nothing. -/
theorem Keeping.failed (h : e.Keeping frames) (hfails : c.result? = .error f) :
    (e.detectWith c.frame c.conf c.reply).1 = .error f ∧
      (e.detectWith c.frame c.conf c.reply).2.shared = e.shared ∧
      (e.detectWith c.frame c.conf c.reply).2.Keeping (frames ++ [c.frame]) := by
  unfold detectWith
  rw [h.ask]
  unfold LocalCall.result? at hfails
  cases hreply : c.reply with
  | error f' =>
      rw [hreply] at hfails
      cases hfails
      exact ⟨rfl, rfl, h.link, h.attached, rfl⟩
  | ok text =>
      rw [hreply] at hfails
      have hread : Document.read text = .error f := hfails
      dsimp only
      rw [Client.hear_of_error hread]
      exact ⟨rfl, rfl, h.link, h.attached, rfl⟩

/-- **A call with a result** publishes it with the oldest frame that is kept then. -/
theorem Keeping.answered (h : e.Keeping frames) (hresult : c.result? = .ok result) :
    (e.detectWith c.frame c.conf c.reply).1 = .ok () ∧
      (e.detectWith c.frame c.conf c.reply).2.shared =
        { frame := (frames ++ [c.frame]).head?, stamp := some e.clock.reading, result := result } ∧
      (e.detectWith c.frame c.conf c.reply).2.Keeping (frames ++ [c.frame]).tail := by
  obtain ⟨oldest, rest, hframes⟩ : ∃ oldest rest, frames ++ [c.frame] = oldest :: rest :=
    List.exists_cons_of_ne_nil (by simp)
  unfold detectWith
  rw [h.ask, hframes]
  unfold LocalCall.result? at hresult
  cases hreply : c.reply with
  | error f' =>
      rw [hreply] at hresult
      cases hresult
  | ok text =>
      rw [hreply] at hresult
      have hread : Document.read text = .ok result := hresult
      dsimp only
      rw [Client.hear_of_ok
        (c := { e.client with parcels := (oldest :: rest).map (Parcel.mk none) })
        hread h.attached rfl]
      exact ⟨rfl, rfl, h.link, h.attached, rfl⟩

/-- **The frames left behind** are those of the latest calls, as many as have failed. -/
theorem keeping_detectEach (env : Environment) (clock : Clock) (calls : List (LocalCall φ)) :
    ((direct env clock).detectEach calls).Keeping (LocalCall.backlog calls) := by
  induction calls using List.reverseRecOn with
  | nil => exact ⟨rfl, rfl, rfl⟩
  | append_singleton calls c ih =>
      rw [detectEach_concat]
      cases hresult : c.result? with
      | error f =>
          rw [LocalCall.backlog_of_error hresult]
          exact (ih.failed hresult).2.2
      | ok result =>
          rw [LocalCall.backlog_of_ok hresult]
          exact (ih.answered hresult).2.2

end Exchange

/-- The frame at the place of the last of some distinct frames is the last one. -/
theorem getElem?_eq_last_iff {frames : List φ} {frame : φ} (hdistinct : (frames ++ [frame]).Nodup)
    {n : Nat} (hn : n ≤ frames.length) :
    (frames ++ [frame])[n]? = some frame ↔ n = frames.length := by
  have hlength : n < (frames ++ [frame]).length := by simpa using Nat.lt_succ_of_le hn
  have hlast : (frames ++ [frame])[frames.length]? = some frame := by simp
  constructor
  · intro hframe
    exact (List.getElem?_inj hlength hdistinct).mp (hframe.trans hlast.symm)
  · rintro rfl
    exact hlast

/-- **With which frame a result is published.**  A call that has a result ends without a fault and
publishes the result with the frame of the call in whose place the results before it leave off: the
first frame for the first result, the second for the second, and so on.  So it is its own frame
exactly if no call before it failed, and exactly then no frame is left behind. -/
theorem local_result_published_with (env : Environment) (clock : Clock)
    (calls : List (LocalCall φ)) (call : LocalCall φ)
    (hdistinct : ((calls ++ [call]).map LocalCall.frame).Nodup) {result : Document}
    (hresult : call.result? = .ok result) :
    let before := (Exchange.direct env clock).detectEach calls
    let after := before.detectWith call.frame call.conf call.reply
    let n := calls.countP LocalCall.succeeds
    after.1 = .ok () ∧
      after.2.shared.frame = ((calls ++ [call]).map LocalCall.frame)[n]? ∧
      after.2.shared.result = result ∧ after.2.shared.stamp = some before.clock.reading ∧
      after.2.client.parcels.map Parcel.frame =
        ((calls ++ [call]).map LocalCall.frame).drop (n + 1) ∧
      (after.2.shared.frame = some call.frame ↔ ∀ c ∈ calls, c.succeeds = true) ∧
      (after.2.client.parcels = [] ↔ ∀ c ∈ calls, c.succeeds = true) := by
  intro before after n
  have hkeeping : before.Keeping (LocalCall.backlog calls) :=
    Exchange.keeping_detectEach env clock calls
  obtain ⟨hok, hshared, hafter⟩ := hkeeping.answered hresult
  have hframe : after.2.shared.frame = ((calls ++ [call]).map LocalCall.frame)[n]? := by
    rw [← List.head?_drop, LocalCall.drop_frames]
    exact congrArg Vision.Shared.frame hshared
  have hparcels : after.2.client.parcels =
      (((calls ++ [call]).map LocalCall.frame).drop (n + 1)).map (Parcel.mk none) := by
    rw [← List.tail_drop, LocalCall.drop_frames]
    exact hafter.parcels
  have hcount : n ≤ (calls.map LocalCall.frame).length := by
    simpa using List.countP_le_length
  have hall : n = (calls.map LocalCall.frame).length ↔ ∀ c ∈ calls, c.succeeds = true := by
    rw [List.length_map, List.countP_eq_length]
  refine ⟨hok, hframe, congrArg Vision.Shared.result hshared,
    congrArg Vision.Shared.stamp hshared, ?_, ?_, ?_⟩
  · simp [hparcels, Function.comp_def]
  · rw [hframe, ← hall, List.map_append]
    rw [List.map_append] at hdistinct
    exact getElem?_eq_last_iff hdistinct hcount
  · rw [hparcels, List.map_eq_nil_iff, List.drop_eq_nil_iff, ← hall, List.map_append,
      List.length_append, List.map_singleton, List.length_singleton]
    omega

namespace LocalCall

/-- A call that the service answers with an empty document. -/
def answered (frame : φ) : LocalCall φ := { frame := frame, reply := .ok "\x7b\x7d" }

/-- A call that the service does not answer. -/
def unanswered (frame : φ) : LocalCall φ := { frame := frame, reply := .error .remoteFailure }

theorem result?_answered (frame : φ) : (answered frame).result? = .ok (.dict []) := rfl

end LocalCall

/-- Of three frames the second is not answered: the result about the third is published with the
second, and the third is left behind. -/
theorem local_result_published_with_three :
    let calls := [LocalCall.answered "a", LocalCall.unanswered "b"]
    let after := ((Exchange.direct [] {}).detectEach calls).detectWith "c" localConf
      (LocalCall.answered "c").reply
    after.1 = .ok () ∧ after.2.shared.frame = some "b" ∧ after.2.shared.result = .dict [] ∧
      after.2.client.parcels.map Parcel.frame = ["c"] := by
  obtain ⟨hok, hframe, hresult, -, hleft, -, -⟩ := local_result_published_with [] {}
    [LocalCall.answered "a", LocalCall.unanswered "b"] (LocalCall.answered "c") (by decide)
    (LocalCall.result?_answered "c")
  exact ⟨hok, hframe, hresult, hleft⟩

/-- The first frame is not answered: the result about the second is published with the first. -/
theorem local_result_published_with_older_frame :
    let after := ((Exchange.direct [] {}).detectEach [LocalCall.unanswered "a"]).detectWith "b"
      localConf (LocalCall.answered "b").reply
    after.1 = .ok () ∧ after.2.shared.frame = some "a" ∧
      after.2.client.parcels.map Parcel.frame = ["b"] := by
  refine ⟨rfl, rfl, rfl⟩

end DronePilot.Detector
