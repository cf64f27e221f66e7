import DronePilot.Proofs.Pairing

/-!
# Two clients of one service

A service elsewhere can be called directly or through the web.  Both clients number their frames,
keep them until an answer names one of them and give up what is older.  Here both are taken through
the same script: frames are submitted at any time, and answers that repeat the numbers of the
requests arrive in any order, each at most once.

* `Exchange.Follows`, `Exchange.Follows.play` — the direct client publishes what the script says
  (`Turn.publications`), and none of its tasks fails.
* `Exchange.play_refused` — the client that goes through the web is never told what its frames are
  called.  Every submission fails before a request is made, so no call is ever open, and it keeps
  every frame under the same number for ever.

`clients_agree_only_idle` puts them side by side.
-/

namespace DronePilot.Detector

variable {φ : Type}

/-- What happens to a client: a frame of a given size is submitted, or a call is answered. -/
inductive Turn (φ : Type) where
  | submit (frame : φ) (width height : Nat) (conf : Option Value)
  | reply (call : Nat) (text : String)

namespace Turn

/-- The frames that are submitted in a script. -/
def submitted : List (Turn φ) → List φ
  | [] => []
  | submit frame _ _ _ :: rest => frame :: submitted rest
  | reply _ _ :: rest => submitted rest

/-- The numbers of the calls that are answered in a script. -/
def answered : List (Turn φ) → List Nat
  | [] => []
  | submit _ _ _ _ :: rest => answered rest
  | reply call _ :: rest => call :: answered rest

/-- `Echoing n done script`: after `n` frames of which those in `done` were answered, every answer
of the script is about a frame that has been submitted and not answered, and repeats its number. -/
inductive Echoing : Nat → List Nat → List (Turn φ) → Prop
  | none (n : Nat) (done : List Nat) : Echoing n done []
  | submit {n : Nat} {done : List Nat} {rest : List (Turn φ)} (frame : φ) (width height : Nat)
      (conf : Option Value) (h : Echoing (n + 1) done rest) :
      Echoing n done (.submit frame width height conf :: rest)
  | reply {n call : Nat} {done : List Nat} {rest : List (Turn φ)} {text : String}
      {result : Document} (sent : call < n) (new : call ∉ done)
      (reads : Document.read text = .ok result)
      (echoes : result.field "image_id" = .ok (.int call)) (h : Echoing n (call :: done) rest) :
      Echoing n done (.reply call text :: rest)

/-- What is to be published in a script, from the frames submitted before it and the first number
that no answer has reached: an answer about a newer frame with that frame, and no other. -/
def publications : List φ → Nat → List (Turn φ) → List (φ × Document)
  | _, _, [] => []
  | frames, horizon, submit frame _ _ _ :: rest => publications (frames ++ [frame]) horizon rest
  | frames, horizon, reply call text :: rest =>
    match frames[call]?, Document.read text with
    | some frame, .ok result =>
      if horizon ≤ call then (frame, result) :: publications frames (call + 1) rest
      else publications frames horizon rest
    | _, _ => publications frames horizon rest

/-- The first answer is always published, so nothing is published only if nothing is answered. -/
theorem publications_eq_nil_iff {frames : List φ} {done : List Nat} {script : List (Turn φ)}
    (h : Echoing frames.length done script) :
    publications frames 0 script = [] ↔ answered script = [] := by
  induction script generalizing frames done with
  | nil => simp [publications, answered]
  | cons turn rest ih =>
      cases h with
      | submit frame width height conf hrest =>
          have hlength : frames.length + 1 = (frames ++ [frame]).length := by simp
          rw [hlength] at hrest
          exact ih hrest
      | reply hsent hnew hreads hechoes hrest =>
          simp [publications, answered, List.getElem?_eq_getElem hsent, hreads]

theorem Echoing.eq_nil {script : List (Turn φ)} (h : Echoing 0 [] script)
    (hsubmitted : submitted script = []) : script = [] := by
  cases h with
  | none => rfl
  | submit frame width height conf hrest => cases hsubmitted
  | reply hsent hnew hreads hechoes hrest => exact absurd hsent (Nat.not_lt_zero _)

end Turn

namespace Exchange

/-- What a turn does, and what it publishes. -/
def take (e : Exchange φ) : Turn φ → Exchange φ × Option (φ × Document)
  | .submit frame width height conf => (e.detect frame width height conf, none)
  | .reply call text => ((e.respond call (.text text)).2, e.published? call (.text text))

/-- What a script does, and what it publishes in order. -/
def play (e : Exchange φ) : List (Turn φ) → Exchange φ × List (φ × Document)
  | [] => (e, [])
  | turn :: rest =>
    let (e', published) := e.take turn
    let (e'', later) := e'.play rest
    (e'', published.toList ++ later)

/-- None of the tasks that have ended failed. -/
def Quiet (e : Exchange φ) : Prop := ∀ x ∈ e.ended, x.2 = .ok ()

/-- The exchange of a client that goes through the web, with the settings of an environment. -/
def web (env : Environment) (clock : Clock) : Exchange φ :=
  { client := .ofSettings .web env, clock := clock }

/-! ### The direct client -/

/-- The direct client after the frames were submitted and the calls in `done` were answered: it
keeps the frames from the horizon on, and every other call is open. -/
structure Follows (frames : List φ) (horizon : Nat) (done : List Nat) (e : Exchange φ) : Prop where
  numbers : Numbers frames.length e
  horizon_le : horizon ≤ frames.length
  parcels : e.client.parcels = parcelsFrom frames horizon
  pending : ∀ call < frames.length, call ∉ done → ∃ w ∈ e.waiting, w.call = call
  quiet : e.Quiet

theorem follows_start {env : Environment}
    (hremote : Settings.isLocal (Settings.visionHost env) = false) (clock : Clock) :
    Follows [] 0 [] (direct env clock : Exchange φ) where
  numbers := numbers_start hremote clock
  horizon_le := Nat.le_refl 0
  parcels := rfl
  pending := fun _ hcall => absurd hcall (Nat.not_lt_zero _)
  quiet := by simp [Quiet, direct]

namespace Follows

variable {frames : List φ} {horizon : Nat} {done : List Nat} {e : Exchange φ}

/-- A request follows those before it. -/
theorem detect (h : Follows frames horizon done e) (frame : φ) (width height : Nat)
    (conf : Option Value) :
    Follows (frames ++ [frame]) horizon done (e.detect frame width height conf) := by
  refine ⟨?_, ?_, ?_, ?_, ?_⟩
  · simpa using h.numbers.detect frame width height conf
  · simpa using Nat.le_succ_of_le h.horizon_le
  · rw [h.numbers.detect_eq, parcelsFrom_append h.horizon_le, ← h.parcels]
    rfl
  · intro call hcall hnew
    rw [h.numbers.detect_eq]
    rw [List.length_append, List.length_singleton] at hcall
    by_cases hlast : call = frames.length
    · exact ⟨⟨frames.length, e.tasks⟩, by simp, hlast.symm⟩
    · obtain ⟨w, hw, hwcall⟩ := h.pending call (by omega) hnew
      exact ⟨w, by simp [hw], hwcall⟩
  · rw [h.numbers.detect_eq]
    exact h.quiet

/-- **A step of the direct client.**  An answer that repeats the number of its frame is published
with that frame if it has reached the horizon, and given up otherwise. -/
theorem reply (h : Follows frames horizon done e) {call : Nat} {text : String} {result : Document}
    (hsent : call < frames.length) (hnew : call ∉ done) (hreads : Document.read text = .ok result)
    (hechoes : result.field "image_id" = .ok (.int call)) :
    Follows frames (if horizon ≤ call then call + 1 else horizon) (call :: done)
        (e.respond call (.text text)).2 ∧
      e.published? call (.text text) =
        if horizon ≤ call then some (frames[call], result) else none := by
  obtain ⟨w, hw, rfl⟩ := h.pending call hsent hnew
  have hfind := find?_waiting h.numbers.distinct hw
  have hreceive : e.client.receive text =
      (.ok (if horizon ≤ w.call then some (frames[w.call], result) else none),
        { e.client with
          parcels := parcelsFrom frames (if horizon ≤ w.call then w.call + 1 else horizon) }) := by
    by_cases hreached : horizon ≤ w.call
    · rw [if_pos hreached, if_pos hreached]
      exact Client.receive_of_le h.numbers.attached h.parcels hreads hechoes hreached hsent
    · rw [if_neg hreached, if_neg hreached,
        Client.receive_of_lt h.parcels hreads hechoes (by omega), ← h.parcels]
  obtain ⟨hpublished, hclient, hlog, hcalls, hwaiting, hended⟩ := respond_of_receive hfind hreceive
  have hsub : (e.respond w.call (.text text)).2.waiting.Sublist e.waiting := by
    rw [hwaiting]
    exact List.filter_sublist
  refine ⟨⟨h.numbers.answered _ hclient hlog hcalls hsub, ?_, ?_, ?_, ?_⟩, hpublished⟩
  · split
    · exact hsent
    · exact h.horizon_le
  · rw [hclient]
  · intro call hcall hother
    rw [List.mem_cons, not_or] at hother
    obtain ⟨w', hw', hcall'⟩ := h.pending call hcall hother.2
    refine ⟨w', ?_, hcall'⟩
    rw [hwaiting, List.mem_filter]
    exact ⟨hw', by simpa [hcall'] using hother.1⟩
  · intro x hx
    rw [hended] at hx
    rcases List.mem_append.mp hx with hx | hx
    · exact h.quiet x hx
    · rw [List.mem_singleton.mp hx]

/-- **A run of the direct client.**  It publishes what the script says. -/
theorem play {script : List (Turn φ)} (hscript : Turn.Echoing frames.length done script)
    (h : Follows frames horizon done e) :
    (e.play script).2 = Turn.publications frames horizon script ∧
      ∃ horizon' done', Follows (frames ++ Turn.submitted script) horizon' done'
        (e.play script).1 := by
  induction script generalizing frames horizon done e with
  | nil => exact ⟨rfl, horizon, done, by simpa [Turn.submitted, Exchange.play] using h⟩
  | cons turn rest ih =>
      cases hscript with
      | submit frame width height conf hrest =>
          have hlength : frames.length + 1 = (frames ++ [frame]).length := by simp
          rw [hlength] at hrest
          obtain ⟨hlater, horizon', done', hend⟩ := ih hrest (h.detect frame width height conf)
          rw [List.append_assoc] at hend
          exact ⟨hlater, horizon', done', hend⟩
      | @reply _ call _ _ text result hsent hnew hreads hechoes hrest =>
          obtain ⟨hnext, hpublished⟩ := h.reply hsent hnew hreads hechoes
          obtain ⟨hlater, hend⟩ := ih hrest hnext
          refine ⟨?_, hend⟩
          simp only [Exchange.play, take, hpublished, hlater, Turn.publications,
            List.getElem?_eq_getElem hsent, hreads]
          by_cases hreached : horizon ≤ call
          · simp [hreached]
          · simp [hreached]

end Follows

/-! ### The client that goes through the web -/

/-- The client that goes through the web after frames were submitted: it keeps all of them, and each
of its tasks has failed. -/
def refused (env : Environment) (clock : Clock) (frames : List φ) : Exchange φ :=
  { client :=
      { (Client.ofSettings .web env : Client φ) with
        parcels := frames.map fun frame => { number := some 0, frame := frame } }
    clock := clock
    tasks := frames.length
    ended := (List.range frames.length).map fun task => (task, .error .noSuchPart) }

theorem detect_refused {env : Environment}
    (hremote : Settings.isLocal (Settings.visionHost env) = false) (clock : Clock)
    (frames : List φ) (frame : φ) (width height : Nat) (conf : Option Value) :
    (refused env clock frames).detect frame width height conf =
      refused env clock (frames ++ [frame]) := by
  simp [Exchange.detect, refused, Client.isLocal, Client.ofSettings, hremote, Client.submit,
    Client.keep, finish, List.range_succ]

/-- **A run of the client that goes through the web.**  It only gathers frames and failures. -/
theorem play_refused {env : Environment}
    (hremote : Settings.isLocal (Settings.visionHost env) = false) (clock : Clock)
    (frames : List φ) (script : List (Turn φ)) :
    (refused env clock frames).play script =
      (refused env clock (frames ++ Turn.submitted script), []) := by
  induction script generalizing frames with
  | nil => simp [play, Turn.submitted]
  | cons turn rest ih =>
      cases turn with
      | submit frame width height conf =>
          simp [play, take, detect_refused hremote, ih, Turn.submitted]
      | reply call text =>
          have hclosed : (refused env clock frames).take (.reply call text) =
              (refused env clock frames, none) := rfl
          simp [play, hclosed, ih, Turn.submitted]

theorem quiet_refused_iff {env : Environment} {clock : Clock} {frames : List φ} :
    (refused env clock frames).Quiet ↔ frames = [] := by
  cases frames with
  | nil => simp [Quiet, refused]
  | cons frame frames =>
      have hfirst : ((0, .error .noSuchPart) : Nat × Except Fault Unit) ∈
          (refused env clock (frame :: frames)).ended := by
        simp [refused]
      refine iff_of_false (fun hquiet => ?_) (List.cons_ne_nil _ _)
      cases hquiet _ hfirst

end Exchange

/-- **The two clients side by side.**  In every script with a service elsewhere whose answers repeat
the numbers of the requests, in any order: the direct client sends each frame under the number of
its call, publishes each answer that is newer than all before it with its frame, and none of its
tasks fails.  The client that goes through the web publishes nothing, and all of its tasks fail.  So
the two publish the same only if nothing is answered, and a script without failures is empty. -/
theorem clients_agree_only_idle {env : Environment}
    (hremote : Settings.isLocal (Settings.visionHost env) = false) (clock : Clock)
    {script : List (Turn φ)} (hscript : Turn.Echoing 0 [] script) :
    (((Exchange.direct env clock).play script).2 = Turn.publications [] 0 script ∧
        ((Exchange.direct env clock).play script).1.Quiet ∧
        ∀ address call method id conf width height,
          (Request.direct method id conf width height).remoteEvents address call ⊆
            ((Exchange.direct env clock).play script).1.log → id = .int call) ∧
      (Exchange.web env clock).play script = (.refused env clock (Turn.submitted script), []) ∧
      (((Exchange.web env clock).play script).2 = ((Exchange.direct env clock).play script).2 ↔
        Turn.answered script = []) ∧
      (((Exchange.web env clock).play script).1.Quiet ↔ script = []) := by
  obtain ⟨hpublished, horizon, done, hend⟩ :=
    Exchange.Follows.play (show Turn.Echoing ([] : List φ).length [] script from hscript)
      (Exchange.follows_start hremote clock)
  have hweb : (Exchange.web env clock).play script =
      (.refused env clock (Turn.submitted script), []) :=
    Exchange.play_refused hremote clock [] script
  refine ⟨⟨hpublished, hend.quiet, hend.numbers.sent⟩, hweb, ?_, ?_⟩
  · rw [hweb, hpublished, eq_comm]
    exact Turn.publications_eq_nil_iff hscript
  · rw [hweb, Exchange.quiet_refused_iff]
    constructor
    · exact hscript.eq_nil
    · intro hnil
      rw [hnil]
      rfl

/-- Three frames are submitted; the second is answered before the first, and the third at last. -/
def threeAnswered : List (Turn String) :=
  [.submit "a" 6 4 none, .submit "b" 6 4 none, .reply 1 "\x7b\"image_id\": 1\x7d",
    .submit "c" 6 4 none, .reply 0 "\x7b\"image_id\": 0\x7d", .reply 2 "\x7b\"image_id\": 2\x7d"]

theorem echoing_threeAnswered : Turn.Echoing 0 [] threeAnswered := by
  have hfirst : Document.read "\x7b\"image_id\": 0\x7d" = .ok (.dict [("image_id", .int 0)]) := rfl
  have hsecond : Document.read "\x7b\"image_id\": 1\x7d" = .ok (.dict [("image_id", .int 1)]) := rfl
  have hthird : Document.read "\x7b\"image_id\": 2\x7d" = .ok (.dict [("image_id", .int 2)]) := rfl
  exact .submit _ _ _ _ (.submit _ _ _ _ (.reply (by decide) (by decide) hsecond rfl
    (.submit _ _ _ _ (.reply (by decide) (by decide) hfirst rfl
      (.reply (by decide) (by decide) hthird rfl (.none _ _))))))

/-- The direct client gives up the late answer and publishes the other two; the other client
publishes none of the three. -/
theorem clients_agree_only_idle_three :
    ((Exchange.direct [("VISION_SERVICE_IP", "far")] {}).play threeAnswered).2 =
        [("b", .dict [("image_id", .int 1)]), ("c", .dict [("image_id", .int 2)])] ∧
      ((Exchange.direct [("VISION_SERVICE_IP", "far")] {}).play threeAnswered).1.Quiet ∧
      (Exchange.web [("VISION_SERVICE_IP", "far")] {}).play threeAnswered =
        (.refused [("VISION_SERVICE_IP", "far")] {} ["a", "b", "c"], []) := by
  obtain ⟨⟨hpublished, hquiet, -⟩, hweb, -, -⟩ :=
    clients_agree_only_idle
      (show Settings.isLocal (Settings.visionHost [("VISION_SERVICE_IP", "far")]) = false from rfl)
      {} echoing_threeAnswered
  exact ⟨hpublished, hquiet, hweb⟩

/-- One frame, answered at once: the direct client publishes it, and through the web its task
fails. -/
theorem web_client_fails_at_first_frame :
    ((Exchange.direct [("VISION_SERVICE_IP", "far")] {}).play
        [.submit "a" 6 4 none, .reply 0 "\x7b\"image_id\": 0\x7d"]).2 =
      [("a", .dict [("image_id", .int 0)])] ∧
    ((Exchange.web [("VISION_SERVICE_IP", "far")] {}).play
        [.submit "a" 6 4 none, .reply 0 "\x7b\"image_id\": 0\x7d"]).2 = [] ∧
    ((Exchange.web [("VISION_SERVICE_IP", "far")] {}).play
        [.submit "a" 6 4 none, .reply 0 "\x7b\"image_id\": 0\x7d"]).1.ended =
      [(0, .error .noSuchPart)] :=
  ⟨rfl, rfl, rfl⟩

end DronePilot.Detector
