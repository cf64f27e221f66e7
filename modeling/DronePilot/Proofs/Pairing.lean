import DronePilot.Detector.Exchange
import Mathlib.Data.List.Nodup

/-!
# Frames and their results

A service elsewhere answers in any order, and not every request is answered.  As long as each answer
names the frame that it is about, a client never pairs a result with another frame.  The frames that
it keeps are those that are newer than every frame an answer has named: an answer about one of them
is published with its frame, an answer about an older frame is given up, and neither can run past
the last frame kept.

What has happened in a run is written down beside the exchange (`Tally`): the frames in the order of
submission, the answers in the order of their arrival, and what was published.

* `Client.receive_of_le`, `Client.receive_of_lt` — what an answer comes to.
* `Exchange.Paired`, `Exchange.Run.paired` — what every step of a run preserves.
* `results_stay_with_frames` — every result is published with its own frame, newer ones only.
-/

namespace DronePilot.Detector

variable {φ : Type}

/-- The frames from a number on, each with its number, as a client keeps them. -/
def parcelsFrom (frames : List φ) (n : Nat) : List (Parcel φ) :=
  (frames.zipIdx.drop n).map fun x => { number := some x.2, frame := x.1 }

/-- The next parcel has the next frame. -/
theorem parcelsFrom_of_lt {frames : List φ} {n : Nat} (h : n < frames.length) :
    parcelsFrom frames n =
      { number := some n, frame := frames[n] } :: parcelsFrom frames (n + 1) := by
  have hlength : n < frames.zipIdx.length := by simpa using h
  rw [parcelsFrom, List.drop_eq_getElem_cons hlength, List.map_cons, parcelsFrom]
  simp

/-- Beyond the frames there are no parcels. -/
theorem parcelsFrom_of_le {frames : List φ} {n : Nat} (h : frames.length ≤ n) :
    parcelsFrom frames n = [] := by
  have hnil : frames.zipIdx.drop n = [] := by simpa using h
  rw [parcelsFrom, hnil, List.map_nil]

/-- A new frame is kept behind the others. -/
theorem parcelsFrom_append {frames : List φ} {n : Nat} (h : n ≤ frames.length) (frame : φ) :
    parcelsFrom (frames ++ [frame]) n =
      parcelsFrom frames n ++ [{ number := some frames.length, frame := frame }] := by
  have hlength : n ≤ frames.zipIdx.length := by simpa using h
  simp [parcelsFrom, List.zipIdx_append, List.drop_append_of_le_length hlength]

namespace Client

variable {c : Client φ} {result : Document} {reply : String} {frames : List φ} {n i : Nat}

/-- What the client finds when it looks at the oldest frame. -/
theorem compareHead_of_field (hfield : result.field "image_id" = .ok (.int i)) (frame : φ) :
    compareHead { number := some n, frame := frame } result = .ok (some (compare (n : Int) i)) := by
  simp only [compareHead, hfield]
  rfl

/-- The frames older than the one that is named are given up, and that one is not. -/
theorem discard_parcelsFrom (hfield : result.field "image_id" = .ok (.int i)) (hn : n ≤ i)
    (hi : i < frames.length) :
    discard result (parcelsFrom frames n) = (.ok (), parcelsFrom frames i) := by
  obtain ⟨k, rfl⟩ : ∃ k, i = n + k := ⟨i - n, by omega⟩
  induction k generalizing n with
  | zero =>
      rw [Nat.add_zero, parcelsFrom_of_lt (by omega), discard, compareHead_of_field hfield]
      simp
  | succ k ih =>
      have hless : compare (n : Int) ((n + (k + 1) : Nat) : Int) = .lt := by
        rw [Int.compare_eq_lt]
        omega
      rw [parcelsFrom_of_lt (by omega), discard, compareHead_of_field hfield, hless]
      have hnext : n + (k + 1) = n + 1 + k := by omega
      rw [hnext] at hfield hi ⊢
      exact ih hfield (by omega) hi

/-- **An answer about a frame that is kept** is paired with it. -/
theorem receive_of_le (hattached : c.attached = true) (hparcels : c.parcels = parcelsFrom frames n)
    (hreads : Document.read reply = .ok result)
    (hfield : result.field "image_id" = .ok (.int i)) (hn : n ≤ i) (hi : i < frames.length) :
    c.receive reply =
      (.ok (some (frames[i], result)), { c with parcels := parcelsFrom frames (i + 1) }) := by
  have hsome : c.parcels.isEmpty = false := by
    rw [hparcels, parcelsFrom_of_lt (by omega)]
    rfl
  simp only [receive, hreads, settle, hsome]
  rw [hparcels, discard_parcelsFrom hfield hn hi, parcelsFrom_of_lt hi]
  simp [compareHead_of_field hfield, hattached]

/-- **An answer about an older frame** is given up. -/
theorem receive_of_lt (hparcels : c.parcels = parcelsFrom frames n)
    (hreads : Document.read reply = .ok result)
    (hfield : result.field "image_id" = .ok (.int i)) (hi : i < n) :
    c.receive reply = (.ok none, c) := by
  simp only [receive, hreads, settle]
  by_cases hn : n < frames.length
  · have hgreater : compare (n : Int) (i : Int) = .gt := by
      rw [Int.compare_eq_gt]
      omega
    rw [parcelsFrom_of_lt hn] at hparcels
    have hkeep : discard result c.parcels = (.ok (), c.parcels) := by
      rw [hparcels, discard, compareHead_of_field hfield, hgreater]
    rw [hkeep]
    simp only [hparcels, List.isEmpty_cons, Bool.false_eq_true, if_false,
      compareHead_of_field hfield, hgreater]
    rw [← hparcels]
  · rw [parcelsFrom_of_le (by omega)] at hparcels
    simp [hparcels]

end Client

/-- A frame that was published with a result, and the call that the result was the answer of. -/
structure Publication (φ : Type) where
  call : Nat
  frame : φ
  result : Document

/-- What has happened in a run: the frames that were submitted, the answers that were handled, each
with its call, and what was published, all in order. -/
structure Tally (φ : Type) where
  submitted : List φ := []
  handled : List (Nat × Document) := []
  published : List (Publication φ) := []

namespace Tally

/-- The first number that is greater than that of every call whose answer was handled. -/
def horizon (t : Tally φ) : Nat := (t.handled.map fun h => h.1 + 1).foldr max 0

/-- The frames that are newer than every answer handled, each with its number. -/
def outstanding (t : Tally φ) : List (Parcel φ) :=
  (t.submitted.zipIdx.filter fun x => t.handled.all fun h => h.1 < x.2).map fun x =>
    { number := some x.2, frame := x.1 }

/-- The frame and the result that the last publication has left. -/
def latest (t : Tally φ) : Option φ × Document :=
  match t.published.getLast? with
  | some p => (some p.frame, p.result)
  | none => (none, .dict [])

/-- The horizon lies above all calls that were handled. -/
theorem horizon_le_iff (t : Tally φ) (n : Nat) : t.horizon ≤ n ↔ ∀ h ∈ t.handled, h.1 < n := by
  unfold horizon
  induction t.handled with
  | nil => simp
  | cons h handled ih =>
      rw [List.map_cons, List.foldr_cons, Nat.max_le, ih, List.forall_mem_cons,
        Nat.lt_iff_add_one_le]

/-- Numbered frames from a number on are those that are left when the others are dropped. -/
theorem filter_zipIdx_ge (frames : List φ) (n k : Nat) :
    (frames.zipIdx k).filter (fun x => n ≤ x.2) = (frames.zipIdx k).drop (n - k) := by
  induction frames generalizing k with
  | nil => simp
  | cons frame frames ih =>
      rw [List.zipIdx_cons]
      by_cases hn : n ≤ k
      · have hall := ih (k + 1)
        rw [Nat.sub_eq_zero_of_le (by omega), List.drop_zero] at hall
        rw [List.filter_cons_of_pos (by simpa using hn), hall, Nat.sub_eq_zero_of_le hn,
          List.drop_zero]
      · rw [List.filter_cons_of_neg (by simpa using hn), ih (k + 1),
          show n - k = n - (k + 1) + 1 by omega, List.drop_succ_cons]

/-- Handling a call moves the horizon beyond it. -/
theorem horizon_handled (t : Tally φ) (call : Nat) (result : Document)
    (published : List (Publication φ)) :
    horizon { t with handled := t.handled ++ [(call, result)], published := published } =
      max t.horizon (call + 1) := by
  have hle : ∀ n, horizon { t with
      handled := t.handled ++ [(call, result)], published := published } ≤ n ↔
        t.horizon ≤ n ∧ call + 1 ≤ n := by
    intro n
    rw [horizon_le_iff, horizon_le_iff, List.forall_mem_append, List.forall_mem_singleton,
      Nat.lt_iff_add_one_le]
  have hself := (hle _).mp (Nat.le_refl _)
  have hmax := (hle (max t.horizon (call + 1))).mpr ⟨Nat.le_max_left _ _, Nat.le_max_right _ _⟩
  omega

/-- Outstanding are the parcels from the horizon on. -/
theorem outstanding_eq (t : Tally φ) : t.outstanding = parcelsFrom t.submitted t.horizon := by
  have hnewer : (fun x : φ × Nat => t.handled.all fun h => h.1 < x.2) =
      fun x => decide (t.horizon ≤ x.2) := by
    funext x
    rw [Bool.eq_iff_iff, decide_eq_true_iff, horizon_le_iff]
    simp
  rw [outstanding, hnewer, filter_zipIdx_ge, parcelsFrom, Nat.sub_zero]

end Tally

namespace Exchange

/-- The exchange of a client that calls the service itself, with the settings of an environment. -/
def direct (env : Environment) (clock : Clock) : Exchange φ :=
  { client := .ofSettings .direct env, clock := clock }

/-- What the answer of a call makes the exchange share: a frame with its result, or nothing. -/
def published? (e : Exchange φ) (call : Nat) (answer : Answer) : Option (φ × Document) :=
  match e.waiting.find? (fun w => w.call == call), answer with
  | some _, .text reply => (e.client.receive reply).1.toOption.join
  | _, _ => none

/-- What is shared after an answer. -/
theorem shared_respond (e : Exchange φ) (call : Nat) (answer : Answer) :
    (e.respond call answer).2.shared =
      match e.published? call answer with
      | some (frame, result) =>
        { frame := some frame, stamp := some e.clock.reading, result := result }
      | none => e.shared := by
  unfold respond published?
  cases e.waiting.find? fun w => w.call == call with
  | none => rfl
  | some w =>
      cases answer with
      | timeout => rfl
      | text reply =>
          cases hreceive : e.client.receive reply with
          | mk outcome c =>
              rcases outcome with f | _ | ⟨frame, result⟩
              · simp [hreceive, finish, Except.toOption]
              · simp [hreceive, finish, Except.toOption]
              · simp [hreceive, finish, publish, Except.toOption]

/-- A result names the frame that its call was about: it repeats the number that the request
had. -/
def Echoes (e : Exchange φ) (call : Nat) (result : Document) : Prop :=
  ∃ address method id conf width height,
    (Request.direct method id conf width height).remoteEvents address call ⊆ e.log ∧
      result.field "image_id" = .ok id

end Exchange

/-- The tally after the answer of a call was handled. -/
def Tally.handle (t : Tally φ) (e : Exchange φ) (call : Nat) (reply : String) (result : Document) :
    Tally φ :=
  { t with
    handled := t.handled ++ [(call, result)]
    published := t.published ++ (e.published? call (.text reply)).toList.map fun p =>
      { call := call, frame := p.1, result := p.2 } }

/-- The runs of an exchange: frames are submitted at any time, calls fail or are answered with
something that cannot be read, and the other answers repeat the number of the request. -/
inductive Exchange.Run (start : Exchange φ) : Tally φ → Exchange φ → Prop
  | start : Run start {} start
  | detect {t : Tally φ} {e : Exchange φ} (before : Run start t e) (frame : φ) (width height : Nat)
      (conf : Option Value) :
      Run start { t with submitted := t.submitted ++ [frame] } (e.detect frame width height conf)
  | fail {t : Tally φ} {e : Exchange φ} (before : Run start t e) (call : Nat) (answer : Answer)
      (unreadable : ∀ reply result, answer = .text reply → Document.read reply ≠ .ok result) :
      Run start t (e.respond call answer).2
  | reply {t : Tally φ} {e : Exchange φ} (before : Run start t e) {w : OpenCall}
      (waits : w ∈ e.waiting) {reply : String} {result : Document}
      (reads : Document.read reply = .ok result) (echoes : e.Echoes w.call result) :
      Run start (t.handle e w.call reply result) (e.respond w.call (.text reply)).2

namespace Exchange

variable {e : Exchange φ} {t : Tally φ} {w : OpenCall} {reply : String} {result : Document}

/-- An exchange with a service elsewhere that has numbered its frames and its calls alike. -/
structure Numbers (n : Nat) (e : Exchange φ) : Prop where
  link : e.client.link = .direct
  remote : e.client.isLocal = false
  attached : e.client.attached = true
  nextId : e.client.nextId = n
  calls : e.calls = n
  sent : ∀ address call method id conf width height,
    (Request.direct method id conf width height).remoteEvents address call ⊆ e.log → id = .int call
  waiting : ∀ w ∈ e.waiting, w.call < n
  distinct : (e.waiting.map OpenCall.call).Nodup

/-- The numbers begin at zero. -/
theorem numbers_start {env : Environment}
    (hremote : Settings.isLocal (Settings.visionHost env) = false) (clock : Clock) :
    Numbers 0 (direct env clock : Exchange φ) := by
  refine ⟨rfl, hremote, rfl, rfl, rfl, ?_, ?_, ?_⟩
  · intro address call method id conf width height hsent
    simp [direct, Request.remoteEvents] at hsent
  · simp [direct]
  · simp [direct]

/-- What submitting a frame comes to. -/
theorem Numbers.detect_eq {n : Nat} (h : Numbers n e) (frame : φ) (width height : Nat)
    (conf : Option Value) :
    e.detect frame width height conf =
      { e with
        tasks := e.tasks + 1
        client := { e.client.keep (some n) frame with nextId := n + 1 }
        log := e.log ++ (Request.direct singleMethod (.int n) (conf.getD e.client.link.conf) width
          height).remoteEvents e.client.address n
        waiting := e.waiting ++ [{ call := n, task := e.tasks }]
        calls := n + 1 } := by
  simp only [Exchange.detect, h.remote, Client.submit, h.link, h.nextId, h.calls]
  rfl

/-- Each request takes the next number. -/
theorem Numbers.detect {n : Nat} (h : Numbers n e) (frame : φ) (width height : Nat)
    (conf : Option Value) : Numbers (n + 1) (e.detect frame width height conf) := by
  rw [h.detect_eq]
  refine ⟨h.link, h.remote, h.attached, rfl, rfl, ?_, ?_, ?_⟩
  · intro address call method id conf' width' height' hsent
    simp only [Request.remoteEvents, List.cons_subset, List.nil_subset, and_true, List.mem_append,
      List.mem_singleton] at hsent
    rcases hsent with hsent | hsent
    · exact h.sent address call method id conf' width' height' (by simpa [Request.remoteEvents])
    · simp only [Event.mk.injEq, List.cons.injEq] at hsent
      obtain ⟨-, hcall, -, -, hid, -⟩ := hsent
      rw [hcall, hid]
  · intro w hw
    rcases List.mem_append.mp hw with hw | hw
    · exact Nat.lt_succ_of_lt (h.waiting w hw)
    · obtain rfl := List.mem_singleton.mp hw
      exact Nat.lt_succ_self n
  · have hnew : n ∉ e.waiting.map OpenCall.call := by
      intro hmem
      obtain ⟨w, hw, hcall⟩ := List.mem_map.mp hmem
      exact absurd hcall (Nat.ne_of_lt (h.waiting w hw))
    simpa using h.distinct.concat hnew

/-- Whatever an answer does to the frames that are kept, the numbers stay. -/
theorem Numbers.answered {n : Nat} {e' : Exchange φ} (h : Numbers n e) (parcels : List (Parcel φ))
    (hclient : e'.client = { e.client with parcels := parcels }) (hlog : e'.log = e.log)
    (hcalls : e'.calls = e.calls) (hwaiting : e'.waiting.Sublist e.waiting) : Numbers n e' := by
  refine ⟨?_, ?_, ?_, ?_, ?_, ?_, ?_, ?_⟩
  · rw [hclient, h.link]
  · rw [hclient, ← h.remote]
    rfl
  · rw [hclient, h.attached]
  · rw [hclient, h.nextId]
  · rw [hcalls, h.calls]
  · rw [hlog]
    exact h.sent
  · exact fun w hw => h.waiting w (hwaiting.subset hw)
  · exact h.distinct.sublist (hwaiting.map _)

/-- The exchange keeps the frames that are newer than every answer handled. -/
structure Keeps (t : Tally φ) (e : Exchange φ) : Prop where
  numbers : Numbers t.submitted.length e
  handled : ∀ h ∈ t.handled, h.1 < t.submitted.length
  parcels : e.client.parcels = parcelsFrom t.submitted t.horizon

/-- Submitting a frame. -/
theorem Keeps.detect (h : Keeps t e) (frame : φ) (width height : Nat) (conf : Option Value) :
    Keeps { t with submitted := t.submitted ++ [frame] } (e.detect frame width height conf) := by
  have hhorizon : t.horizon ≤ t.submitted.length := (t.horizon_le_iff _).mpr h.handled
  refine ⟨?_, ?_, ?_⟩
  · simpa using h.numbers.detect frame width height conf
  · intro answer hanswer
    simpa using Nat.lt_succ_of_lt (h.handled answer hanswer)
  · rw [h.numbers.detect_eq]
    change e.client.parcels ++ _ = parcelsFrom (t.submitted ++ [frame]) t.horizon
    rw [parcelsFrom_append hhorizon, h.parcels]

/-- A call that fails, or whose answer cannot be read. -/
theorem Keeps.fail (h : Keeps t e) (call : Nat) (answer : Answer)
    (hunreadable : ∀ reply result, answer = .text reply → Document.read reply ≠ .ok result) :
    Keeps t (e.respond call answer).2 ∧ (e.respond call answer).2.shared = e.shared := by
  have hforget : ∀ ended, Keeps t { e with
      waiting := e.waiting.filter (fun w => w.call != call), ended := ended } := by
    intro ended
    exact ⟨h.numbers.answered e.client.parcels rfl rfl rfl List.filter_sublist, h.handled,
      h.parcels⟩
  unfold respond
  cases e.waiting.find? fun w => w.call == call with
  | none => exact ⟨h, rfl⟩
  | some w =>
      cases answer with
      | timeout => exact ⟨hforget _, rfl⟩
      | text reply =>
          have hreceive : ∃ f, e.client.receive reply = (.error f, e.client) := by
            cases hread : Document.read reply with
            | error f => exact ⟨f, by simp [Client.receive, hread, h.numbers.link]⟩
            | ok result => exact absurd hread (hunreadable reply result rfl)
          obtain ⟨f, hreceive⟩ := hreceive
          simp only [hreceive]
          exact ⟨hforget _, rfl⟩

/-- A call that waits is found by its number. -/
theorem find?_waiting (hdistinct : (e.waiting.map OpenCall.call).Nodup) (hw : w ∈ e.waiting) :
    e.waiting.find? (fun w' => w'.call == w.call) = some w := by
  cases hfind : e.waiting.find? fun w' => w'.call == w.call with
  | none =>
      rw [List.find?_eq_none] at hfind
      exact absurd (beq_self_eq_true w.call) (hfind w hw)
  | some w' =>
      have hcall : w'.call = w.call := by simpa using List.find?_some hfind
      rw [List.inj_on_of_nodup_map hdistinct (List.mem_of_find?_eq_some hfind) hw hcall]

/-- What the client makes of an answer: it is published if it is newer than every answer handled,
and in any case the frames up to the one that it names are no longer kept. -/
theorem Keeps.receive (h : Keeps t e) (hw : w ∈ e.waiting)
    (hreads : Document.read reply = .ok result) (hechoes : e.Echoes w.call result) :
    ∃ frame, t.submitted[w.call]? = some frame ∧
      e.client.receive reply =
        (.ok (if ∀ h ∈ t.handled, h.1 < w.call then some (frame, result) else none),
          { e.client with parcels := parcelsFrom t.submitted (max t.horizon (w.call + 1)) }) := by
  obtain ⟨address, method, id, conf, width, height, hsent, hfield⟩ := hechoes
  obtain rfl := h.numbers.sent _ _ _ _ _ _ _ hsent
  have hcall : w.call < t.submitted.length := h.numbers.waiting w hw
  refine ⟨t.submitted[w.call], List.getElem?_eq_getElem hcall, ?_⟩
  by_cases hnewer : t.horizon ≤ w.call
  · rw [Client.receive_of_le h.numbers.attached h.parcels hreads hfield hnewer hcall,
      if_pos ((t.horizon_le_iff _).mp hnewer), Nat.max_eq_right (by omega)]
  · rw [Client.receive_of_lt h.parcels hreads hfield (by omega),
      if_neg (mt (t.horizon_le_iff _).mpr hnewer), Nat.max_eq_left (by omega), ← h.parcels]

/-- What becomes of a call whose answer the client could handle. -/
theorem respond_of_receive (hfind : e.waiting.find? (fun w' => w'.call == w.call) = some w)
    {x : Option (φ × Document)} {c : Client φ} (hreceive : e.client.receive reply = (.ok x, c)) :
    e.published? w.call (.text reply) = x ∧
      (e.respond w.call (.text reply)).2.client = c ∧
      (e.respond w.call (.text reply)).2.log = e.log ∧
      (e.respond w.call (.text reply)).2.calls = e.calls ∧
      (e.respond w.call (.text reply)).2.waiting = e.waiting.filter (fun w' => w'.call != w.call) ∧
      (e.respond w.call (.text reply)).2.ended = e.ended ++ [(w.task, .ok ())] := by
  unfold respond published?
  simp only [hfind, hreceive]
  rcases x with _ | ⟨frame, result⟩
  · exact ⟨rfl, rfl, rfl, rfl, rfl, rfl⟩
  · exact ⟨rfl, rfl, rfl, rfl, rfl, rfl⟩

/-- Handling an answer. -/
theorem Keeps.answered (h : Keeps t e) (hw : w ∈ e.waiting)
    (hreads : Document.read reply = .ok result) (hechoes : e.Echoes w.call result) :
    Keeps (t.handle e w.call reply result) (e.respond w.call (.text reply)).2 := by
  obtain ⟨frame, -, hreceive⟩ := h.receive hw hreads hechoes
  obtain ⟨-, hclient, hlog, hcalls, hwaiting, -⟩ :=
    respond_of_receive (find?_waiting h.numbers.distinct hw) hreceive
  have hsub : (e.respond w.call (.text reply)).2.waiting.Sublist e.waiting := by
    rw [hwaiting]
    exact List.filter_sublist
  refine ⟨h.numbers.answered _ hclient hlog hcalls hsub, ?_, ?_⟩
  · intro answer hanswer
    rcases List.mem_append.mp hanswer with hanswer | hanswer
    · exact h.handled answer hanswer
    · obtain rfl := List.mem_singleton.mp hanswer
      exact h.numbers.waiting w hw
  · rw [hclient, Tally.handle, Tally.horizon_handled]

/-- **What every step of a run preserves.**  Every publication is of a frame with the answer about
it, each is newer than the one before, and the last is what is shared. -/
structure Paired (t : Tally φ) (e : Exchange φ) : Prop where
  keeps : Keeps t e
  paired : ∀ p ∈ t.published, t.submitted[p.call]? = some p.frame ∧ (p.call, p.result) ∈ t.handled
  increasing : (t.published.map Publication.call).Pairwise (· < ·)
  shared : (e.shared.frame, e.shared.result) = t.latest

/-- A request is paired with its frame. -/
theorem Paired.detect (h : Paired t e) (frame : φ) (width height : Nat) (conf : Option Value) :
    Paired { t with submitted := t.submitted ++ [frame] } (e.detect frame width height conf) := by
  refine ⟨h.keeps.detect frame width height conf, ?_, h.increasing, ?_⟩
  · intro p hp
    obtain ⟨hframe, hresult⟩ := h.paired p hp
    have hold : p.call < t.submitted.length := (List.getElem?_eq_some_iff.mp hframe).1
    exact ⟨by rw [List.getElem?_append_left hold, hframe], hresult⟩
  · have hshared : (e.detect frame width height conf).shared = e.shared := by
      rw [h.keeps.numbers.detect_eq]
    rw [hshared]
    exact h.shared

/-- **An answer that echoes its call keeps frames and results paired.** -/
theorem Paired.answered (h : Paired t e) (hw : w ∈ e.waiting)
    (hreads : Document.read reply = .ok result) (hechoes : e.Echoes w.call result) :
    Paired (t.handle e w.call reply result) (e.respond w.call (.text reply)).2 := by
  obtain ⟨frame, hframe, hreceive⟩ := h.keeps.receive hw hreads hechoes
  obtain ⟨hpublished, -⟩ := respond_of_receive (find?_waiting h.keeps.numbers.distinct hw) hreceive
  have hpaired : ∀ p ∈ t.published, t.submitted[p.call]? = some p.frame ∧
      (p.call, p.result) ∈ t.handled ++ [(w.call, result)] :=
    fun p hp => ⟨(h.paired p hp).1, List.mem_append_left _ (h.paired p hp).2⟩
  have hshared := shared_respond e w.call (.text reply)
  by_cases hnewer : ∀ h ∈ t.handled, h.1 < w.call
  · rw [if_pos hnewer] at hpublished
    rw [hpublished] at hshared
    have hlist : (t.handle e w.call reply result).published =
        t.published ++ [{ call := w.call, frame := frame, result := result }] := by
      simp [Tally.handle, hpublished]
    refine ⟨h.keeps.answered hw hreads hechoes, ?_, ?_, ?_⟩
    · intro p hp
      rw [hlist] at hp
      rcases List.mem_append.mp hp with hp | hp
      · exact hpaired p hp
      · obtain rfl := List.mem_singleton.mp hp
        exact ⟨hframe, List.mem_append_right _ (List.mem_singleton_self _)⟩
    · rw [hlist, List.map_append, List.pairwise_append]
      refine ⟨h.increasing, List.pairwise_singleton _ _, ?_⟩
      intro n hn m hm
      obtain ⟨p, hp, rfl⟩ := List.mem_map.mp hn
      obtain rfl := List.mem_singleton.mp hm
      exact hnewer _ (h.paired p hp).2
    · rw [Tally.latest, hlist, List.getLast?_concat, hshared]
  · rw [if_neg hnewer] at hpublished
    rw [hpublished] at hshared
    have hlist : (t.handle e w.call reply result).published = t.published := by
      simp [Tally.handle, hpublished]
    refine ⟨h.keeps.answered hw hreads hechoes, ?_, ?_, ?_⟩
    · rw [hlist]
      exact hpaired
    · rw [hlist]
      exact h.increasing
    · rw [Tally.latest, hlist, hshared]
      exact h.shared

/-- What a run preserves. -/
theorem Run.paired {start : Exchange φ} (hrun : Run start t e) (hstart : Paired {} start) :
    Paired t e := by
  induction hrun with
  | start => exact hstart
  | detect _ frame width height conf ih => exact ih.detect frame width height conf
  | fail _ call answer hunreadable ih =>
      obtain ⟨hkeeps, hshared⟩ := ih.keeps.fail call answer hunreadable
      exact ⟨hkeeps, ih.paired, ih.increasing, by rw [hshared, ih.shared]⟩
  | reply _ hw hreads hechoes ih => exact ih.answered hw hreads hechoes

end Exchange

/-- **Every result is published with its own frame.**  In every run with a service elsewhere whose
answers repeat the numbers of the requests, in any order and with any of them missing or unreadable:
what is published is a frame with the answer about it, each newer than the one before; the client
keeps exactly the frames that are newer than every answer handled; and no answer can fail to be
handled, but is published if it is newer than all before and given up otherwise. -/
theorem results_stay_with_frames {env : Environment}
    (hremote : Settings.isLocal (Settings.visionHost env) = false) (clock : Clock) {t : Tally φ}
    {e : Exchange φ} (hrun : Exchange.Run (.direct env clock) t e) :
    (∀ p ∈ t.published,
        t.submitted[p.call]? = some p.frame ∧ (p.call, p.result) ∈ t.handled) ∧
      (t.published.map Publication.call).Pairwise (· < ·) ∧
      (e.shared.frame, e.shared.result) = t.latest ∧
      e.client.parcels = t.outstanding ∧
      ∀ w ∈ e.waiting, ∀ reply result, Document.read reply = .ok result → e.Echoes w.call result →
        ∃ frame, t.submitted[w.call]? = some frame ∧
          e.published? w.call (.text reply) =
            (if ∀ h ∈ t.handled, h.1 < w.call then some (frame, result) else none) ∧
          (e.respond w.call (.text reply)).2.ended = e.ended ++ [(w.task, .ok ())] := by
  have hstart : Exchange.Paired ({} : Tally φ) (.direct env clock) :=
    ⟨⟨Exchange.numbers_start hremote clock, by simp, rfl⟩, by simp, by simp, rfl⟩
  have hpaired := hrun.paired hstart
  refine ⟨hpaired.paired, hpaired.increasing, hpaired.shared, ?_, ?_⟩
  · rw [hpaired.keeps.parcels, Tally.outstanding_eq]
  · intro w hw reply result hreads hechoes
    obtain ⟨frame, hframe, hreceive⟩ := hpaired.keeps.receive hw hreads hechoes
    have hfind := Exchange.find?_waiting hpaired.keeps.numbers.distinct hw
    obtain ⟨hpublished, -, -, -, -, hended⟩ := Exchange.respond_of_receive hfind hreceive
    exact ⟨frame, hframe, hpublished, hended⟩

/-- An exchange with a service elsewhere that has been sent three frames. -/
def Exchange.threeSent : Exchange String :=
  (((Exchange.direct [("VISION_SERVICE_IP", "far")] {}).detect "a" 4 3 none).detect "b" 4 3
    none).detect "c" 4 3 none

/-- The answer about the second of three frames comes before the one about the first. -/
theorem results_stay_with_frames_threeSent :
    ∃ (t : Tally String) (e : Exchange String),
      Exchange.Run (.direct [("VISION_SERVICE_IP", "far")] {}) t e ∧
      t.handled.map Prod.fst = [1, 0] ∧ t.published.map Publication.call = [1] ∧
      (∀ p ∈ t.published, t.submitted[p.call]? = some p.frame) ∧
      (e.shared.frame, e.shared.result) = (some "b", .dict [("image_id", .int 1)]) ∧
      e.client.parcels = t.outstanding ∧ t.outstanding.map Parcel.frame = ["c"] := by
  have hsent : Exchange.Run (.direct [("VISION_SERVICE_IP", "far")] {})
      { submitted := ["a", "b", "c"] } Exchange.threeSent :=
    ((Exchange.Run.start.detect "a" 4 3 none).detect "b" 4 3 none).detect "c" 4 3 none
  have hlog : Exchange.threeSent.log = (List.range 3).flatMap fun i : Nat =>
      (Request.direct "Detect" (.int i) (.float 0.1) 4 3).remoteEvents "far:50050" i := rfl
  have hechoes : ∀ e : Exchange String, e.log = Exchange.threeSent.log → ∀ i < 3,
      e.Echoes i (.dict [("image_id", .int i)]) := by
    intro e he i hi
    refine ⟨"far:50050", "Detect", .int i, .float 0.1, 4, 3, ?_, rfl⟩
    rw [he, hlog]
    exact fun event hevent => List.mem_flatMap.mpr ⟨i, List.mem_range.mpr hi, hevent⟩
  have hsecond := hsent.reply (w := ⟨1, 1⟩) (by decide)
    (show Document.read "\x7b\"image_id\": 1\x7d" = .ok (.dict [("image_id", .int 1)]) from rfl)
    (hechoes _ rfl 1 (by decide))
  have hfirst := hsecond.reply (w := ⟨0, 0⟩) (by decide)
    (show Document.read "\x7b\"image_id\": 0\x7d" = .ok (.dict [("image_id", .int 0)]) from rfl)
    (hechoes _ rfl 0 (by decide))
  obtain ⟨hpaired, -, hshared, hparcels, -⟩ := results_stay_with_frames rfl {} hfirst
  exact ⟨_, _, hfirst, rfl, rfl, fun p hp => (hpaired p hp).1, hshared, hparcels, rfl⟩

end DronePilot.Detector
