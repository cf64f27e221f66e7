import DronePilot.Proofs.Traffic

/-!
# No channel is lost

At an office and at a router alike, every channel that was opened is at each moment in one place and
one place only: in the queue of its service, with one user, or in the hands of one task or request
that is not finished.  Nothing that fails on the way changes this, because an errand that fails has
moved nothing but what a clean-up moves.

* `Office.Reaches.books`, `Router.Reaches.orderly` — what every move preserves, over whole runs.
* `channels_conserved` — each channel is in exactly one place.
-/

namespace DronePilot.Service

/-- A pool of which no channel has been opened. -/
structure Pool.Untouched (p : Pool) : Prop where
  unopened : p.opened = false
  free : p.dedicated.entries = []
  empty : ∀ e ∈ p.queues.entries, e.2.channels = []
  served : ∀ s ∈ p.services.keys, s ∈ p.queues.keys
  leaseTime : p.leaseTime = Service.leaseTime

/-- A pool stays untouched when a service is added. -/
theorem Pool.Untouched.add {p : Pool} (h : p.Untouched) (service host ports : String) :
    (p.add service host ports).Untouched := by
  refine ⟨h.unopened, h.free, ?_, ?_, h.leaseTime⟩
  · intro e he
    rcases Table.mem_entries_insert he with rfl | he
    · rfl
    · exact h.empty e he
  · intro s hs
    have hkey : s ∈ p.services.keys ∨ s = service := by
      simp only [Pool.add, Table.keys_insert] at hs
      split at hs
      · exact .inl hs
      · simpa using hs
    simp only [Pool.add, Table.keys_insert]
    rcases hkey with hkey | rfl
    · have hmem := h.served s hkey
      split <;> simp [hmem]
    · split <;> simp_all

/-- A pool with services to offer is untouched. -/
theorem Pool.untouched_offering (now : Float) (services : List (String × String × String)) :
    (Pool.offering now services).Untouched := by
  have hfold : ∀ {p : Pool}, p.Untouched →
      (services.foldl (fun p s => p.add s.1 s.2.1 s.2.2) p).Untouched := by
    induction services with
    | nil => exact fun h => h
    | cons s services ih => exact fun h => ih (h.add s.1 s.2.1 s.2.2)
  exact hfold ⟨rfl, rfl, by simp [Table.empty], by simp [Table.empty, Table.keys], rfl⟩

/-- An untouched pool accounts for its channels, none of which is held. -/
theorem Pool.Untouched.accounts {p : Pool} (h : p.Untouched) : p.Accounts [] := by
  refine ⟨h.served, by simp [h.free], ?_⟩
  have hqueued : p.queued = [] := by
    simpa [Pool.queued] using fun s q he => h.empty (s, q) he
  simp [hqueued, Pool.leased, h.free, h.unopened]

/-- What every move at an office preserves. -/
theorem Office.Moves.books {o o' : Office} {what : Option (Errand × Float)}
    (h : Moves what o o') (hbooks : o.desk.pool.Accounts o.held) :
    o'.desk.pool.Accounts o'.held ∧ o.desk.pool.Continues o'.desk.pool := by
  cases h with
  | start _ e now own =>
      rw [Office.start, Desk.pool_start]
      exact hbooks.perform e _ now own
  | resume _ w woken =>
      rw [Office.resume, Desk.pool_resume]
      exact ⟨hbooks.rouse w, (Pool.rouse_gains w).continues_back⟩

/-- **The books of an office stay in order** whatever it does. -/
theorem Office.Reaches.books {o o' : Office} (h : Reaches o o')
    (hbooks : o.desk.pool.Accounts o.held) :
    o'.desk.pool.Accounts o'.held ∧ o.desk.pool.Continues o'.desk.pool := by
  induction h with
  | refl => exact ⟨hbooks, .refl _⟩
  | tail _ hstep ih =>
      obtain ⟨what, hmoves⟩ := hstep
      obtain ⟨hbooks', hcontinues⟩ := hmoves.books ih.1
      exact ⟨hbooks', ih.2.trans hcontinues⟩

/-- The channel of an unfinished request that took it from the pool. -/
def OpenJob.hold? (w : OpenJob) : Option (String × Channel) :=
  if w.job.stream then none else w.channel.map fun c => (detectionService, c)

namespace Router

/-- The channels that unfinished requests took from the pool. -/
def inUse (r : Router) : List (String × Channel) := r.working.filterMap OpenJob.hold?

/-- The books of a router are in order.  Only a request that is not part of a stream waits, and the
calls in progress have numbers of their own. -/
structure Orderly (r : Router) : Prop where
  books : r.pool.Accounts r.inUse
  waiting : ∀ job, r.turn = some job → job.stream = false
  numbered : ∀ w ∈ r.working, w.call < r.calls
  distinct : (r.working.map (·.call)).Nodup

/-- A router with an untouched pool is orderly. -/
theorem orderly_of_untouched {p : Pool} (h : p.Untouched) (clock : Clock) :
    Orderly { pool := p, clock := clock } :=
  ⟨h.accounts, by simp, by simp, by simp⟩

/-- Taking a request in concerns neither the pool nor the workers. -/
theorem takeIn_frame (r : Router) (q : Inquiry) :
    (r.takeIn q).pool = r.pool ∧ (r.takeIn q).working = r.working ∧
      (r.takeIn q).calls = r.calls ∧ (r.takeIn q).turn = r.turn := by
  unfold takeIn
  simp only
  split
  · exact ⟨rfl, rfl, rfl, rfl⟩
  · exact ⟨rfl, rfl, rfl, rfl⟩
  · exact ⟨rfl, rfl, rfl, rfl⟩
  · split
    · exact ⟨rfl, rfl, rfl, rfl⟩
    · exact ⟨rfl, rfl, rfl, rfl⟩

/-- One more job holds one more channel, or none. -/
theorem filterMap_hold?_cons (w : OpenJob) (ws : List OpenJob) :
    (w :: ws).filterMap OpenJob.hold? = w.hold?.toList ++ ws.filterMap OpenJob.hold? := by
  cases hhold : w.hold? with
  | none => simp [hhold]
  | some held => simp [hhold]

/-- A job that is passed on has its channel in use. -/
theorem inUse_passOn (r : Router) (job : Job) (channel : Option Channel) :
    (r.passOn job channel).inUse =
      r.inUse ++ (OpenJob.hold? { call := r.calls, job := job, channel := channel }).toList := by
  simp [inUse, passOn, List.filterMap_append, filterMap_hold?_cons]

/-- A job of a router with a number of its own. -/
theorem passOn_numbered {r : Router} (hnumbered : ∀ w ∈ r.working, w.call < r.calls)
    (hdistinct : (r.working.map (·.call)).Nodup) (job : Job) (channel : Option Channel) :
    (∀ w ∈ (r.passOn job channel).working, w.call < (r.passOn job channel).calls) ∧
      ((r.passOn job channel).working.map (·.call)).Nodup := by
  constructor
  · intro w hw
    rcases List.mem_append.mp hw with hw | hw
    · exact Nat.lt_succ_of_lt (hnumbered w hw)
    · obtain rfl := List.mem_singleton.mp hw
      exact Nat.lt_succ_self _
  · simp only [passOn, List.map_append, List.map_cons, List.map_nil]
    rw [List.nodup_append]
    refine ⟨hdistinct, by simp, ?_⟩
    intro a ha b hb
    obtain ⟨w, hw, rfl⟩ := List.mem_map.mp ha
    obtain rfl := List.mem_singleton.mp hb
    exact Nat.ne_of_lt (hnumbered w hw)

/-- A request of a stream never waits for a channel. -/
theorem perform_claim_ne_none (p : Pool) (task : Nat) (now : Float) (s : String)
    (name : Document) : ((Errand.claim s name).perform p task now).1 ≠ none := by
  unfold Errand.perform
  split
  · simp
  · split
    · simp
    · simp
    · next q hact =>
        rcases Errand.act_cases hact with ⟨hself | hself, -⟩ | ⟨_, _, hself, -⟩ |
          ⟨_, _, _, _, -, hoc, -⟩ | ⟨_, _, hself, -⟩ | ⟨_, _, hself, -⟩
        · cases hself
        · cases hself
        · cases hself
        · cases hoc
        · cases hself
        · cases hself

variable {r r' : Router}

/-- What is in the hands of requests after one has been given its turn. -/
theorem holding_errandOf (job : Job) (call : Nat) (held : List (String × Channel))
    (channel : Option Channel) :
    ((errandOf job).holding held (some (.ok channel))).Perm
      (held ++ (OpenJob.hold? { call := call, job := job, channel := channel }).toList) := by
  cases hstream : job.stream with
  | true => simp [errandOf, OpenJob.hold?, hstream, Errand.holding]
  | false =>
      cases channel with
      | none => simp [errandOf, OpenJob.hold?, hstream, Errand.holding]
      | some c =>
          simpa [errandOf, OpenJob.hold?, hstream, Errand.holding] using
            (List.perm_append_singleton (detectionService, c) held).symm

/-- Giving a request its turn. -/
theorem Orderly.lookFor (h : r.Orderly) (job : Job) (hfree : r.turn = none) :
    (r.lookFor job).Orderly ∧ r.pool.Continues (r.lookFor job).pool := by
  have hown : ∀ s c, errandOf job = .release s c → (s, c) ∈ r.inUse := by
    intro s c heq
    unfold errandOf at heq
    split at heq <;> cases heq
  obtain ⟨hbooks, hcontinues⟩ := h.books.perform (errandOf job) job.task r.clock.now hown
  have hnobody : ∀ job, r.turn = some job → job.stream = false := by simp [hfree]
  unfold Router.lookFor
  cases hperform : (errandOf job).perform r.pool job.task r.clock.now with
  | mk o p =>
      rw [hperform] at hbooks hcontinues
      rcases o with _ | f | channel
      · have hstream : job.stream = false := by
          cases hstream : job.stream with
          | false => rfl
          | true =>
              have herrand : errandOf job = .claim detectionService job.user := by
                simp [errandOf, hstream]
              rw [herrand] at hperform
              exact absurd (congrArg Prod.fst hperform) (perform_claim_ne_none _ _ _ _ _)
        have hheld : (errandOf job).holding r.inUse none = r.inUse := by
          simp [errandOf, hstream, Errand.holding]
        rw [hheld] at hbooks
        refine ⟨⟨hbooks, ?_, h.numbered, h.distinct⟩, hcontinues⟩
        intro job' hturn
        obtain rfl := Option.some.inj hturn
        exact hstream
      · have hheld : (errandOf job).holding r.inUse (some (.error f)) = r.inUse := by
          unfold errandOf
          split <;> rfl
        rw [hheld] at hbooks
        exact ⟨⟨hbooks, hnobody, h.numbered, h.distinct⟩, hcontinues⟩
      · have hnumbers := passOn_numbered (r := { r with pool := p }) h.numbered h.distinct job
          channel
        refine ⟨⟨?_, hnobody, hnumbers.1, hnumbers.2⟩, hcontinues⟩
        rw [inUse_passOn]
        exact hbooks.perm (holding_errandOf job r.calls r.inUse channel)

/-- A call that is in progress, and the others. -/
theorem working_split (hdistinct : (r.working.map (·.call)).Nodup) {call : Nat} {w : OpenJob}
    (hfind : r.working.find? (fun w => w.call == call) = some w) :
    ∃ before after, r.working = before ++ w :: after ∧
      r.working.filter (fun w => w.call != call) = before ++ after := by
  have hcall : w.call = call := by simpa using List.find?_some hfind
  obtain ⟨before, after, hsplit⟩ := List.append_of_mem (List.mem_of_find?_eq_some hfind)
  refine ⟨before, after, hsplit, ?_⟩
  rw [hsplit, List.map_append, List.map_cons, List.nodup_append, List.nodup_cons] at hdistinct
  obtain ⟨-, ⟨hafter, -⟩, hbefore⟩ := hdistinct
  have hkeep : ∀ l : List OpenJob, w.call ∉ l.map (·.call) →
      l.filter (fun w => w.call != call) = l := by
    intro l hl
    rw [List.filter_eq_self]
    intro v hv
    have hne : v.call ≠ w.call := fun heq => hl (heq ▸ List.mem_map_of_mem hv)
    simpa [← hcall] using hne
  rw [hsplit, List.filter_append, List.filter_cons,
    hkeep before fun hmem => hbefore _ hmem _ List.mem_cons_self rfl, hkeep after hafter]
  simp [hcall]

/-- What a request took from the pool can be given back. -/
theorem exists_giveBack {p : Pool} {held rest : List (String × Channel)} (h : p.Accounts held)
    {w : OpenJob} (hheld : held.Perm (w.hold?.toList ++ rest)) :
    ∃ p', giveBack w p = .ok p' ∧ p'.Accounts rest ∧ p.Continues p' ∧
      p'.dedicated = p.dedicated := by
  have hkept : w.hold? = none → p.Accounts rest := by
    intro hnone
    rw [hnone] at hheld
    exact h.perm hheld
  unfold giveBack
  cases hstream : w.job.stream with
  | true => exact ⟨p, rfl, hkept (by simp [OpenJob.hold?, hstream]), .refl p, rfl⟩
  | false =>
      cases hchannel : w.channel with
      | none => exact ⟨p, rfl, hkept (by simp [OpenJob.hold?, hstream, hchannel]), .refl p, rfl⟩
      | some c =>
          have hhold : w.hold? = some (detectionService, c) := by
            simp [OpenJob.hold?, hstream, hchannel]
          rw [hhold] at hheld
          have hmem : (detectionService, c) ∈ held := hheld.mem_iff.mpr (by simp)
          obtain ⟨p', hput, hgains⟩ :=
            Pool.exists_put (h.served_of_mem (List.mem_append_right _ hmem)) c
          exact ⟨p', hput, h.gain hgains hheld, hgains.continues, hgains.dedicated⟩

/-- A worker that answers or fails. -/
theorem Orderly.conclude (h : r.Orderly) (call : Nat) (reply : Option String) :
    (r.conclude call reply).2.Orderly ∧ r.pool.Continues (r.conclude call reply).2.pool := by
  unfold Router.conclude
  cases hfind : r.working.find? fun w => w.call == call with
  | none => exact ⟨h, .refl _⟩
  | some w =>
      obtain ⟨before, after, hsplit, hfilter⟩ := working_split h.distinct hfind
      have hsub : (before ++ after).Sublist r.working := by
        rw [hsplit]
        exact (List.sublist_cons_self w after).append_left before
      have huse : r.inUse.Perm (w.hold?.toList ++ (before ++ after).filterMap OpenJob.hold?) := by
        rw [inUse, hsplit, ← filterMap_hold?_cons]
        exact List.perm_middle.filterMap OpenJob.hold?
      obtain ⟨p, hback, hbooks, hcontinues, -⟩ := exists_giveBack h.books huse
      simp only [hback, hfilter]
      exact ⟨⟨hbooks, h.waiting, fun v hv => h.numbered v (hsub.subset hv),
        h.distinct.sublist (hsub.map _)⟩, hcontinues⟩

/-- A request that looks again. -/
theorem Orderly.lookAgain (h : r.Orderly) :
    r.lookAgain.Orderly ∧ r.pool.Continues r.lookAgain.pool := by
  unfold Router.lookAgain
  split
  · exact ⟨h, .refl _⟩
  · next job hturn =>
      simp only
      split
      · have hbooks := h.books.rouse { service := detectionService, task := job.task }
        have hcontinues := (Pool.rouse_gains (p := r.pool)
          { service := detectionService, task := job.task }).continues_back
        cases hrouse : r.pool.rouse { service := detectionService, task := job.task } with
        | mk oc p =>
            rw [hrouse] at hbooks hcontinues
            rcases oc with _ | c
            · exact ⟨⟨hbooks, h.waiting, h.numbered, h.distinct⟩, hcontinues⟩
            · have hnumbers := passOn_numbered (r := { r with pool := p, turn := none })
                h.numbered h.distinct job (some c)
              refine ⟨⟨?_, by simp [passOn], hnumbers.1, hnumbers.2⟩, hcontinues⟩
              have hhold : OpenJob.hold? { call := r.calls, job := job, channel := some c } =
                  some (detectionService, c) := by simp [OpenJob.hold?, h.waiting job hturn]
              rw [inUse_passOn, hhold]
              exact hbooks.perm List.perm_append_comm
      · exact ⟨h, .refl _⟩

/-- **Whatever happens at a router, its books stay in order.** -/
theorem Step.orderly (hstep : Step r r') (h : r.Orderly) :
    r'.Orderly ∧ r.pool.Continues r'.pool := by
  cases hstep with
  | takeIn q =>
      obtain ⟨hpool, hworking, hcalls, hturn⟩ := takeIn_frame r q
      refine ⟨⟨?_, ?_, ?_, ?_⟩, ?_⟩
      · rw [inUse, hpool, hworking]
        exact h.books
      · rw [hturn]
        exact h.waiting
      · rw [hworking, hcalls]
        exact h.numbered
      · rw [hworking]
        exact h.distinct
      · rw [hpool]
        exact .refl _
  | next =>
      unfold Router.next
      split
      · next job rest hfree hline =>
          exact Orderly.lookFor (r := { r with line := rest })
            ⟨h.books, h.waiting, h.numbered, h.distinct⟩ job hfree
      · exact ⟨h, .refl _⟩
  | lookAgain => exact h.lookAgain
  | conclude call reply => exact h.conclude call reply
  | openChannels =>
      obtain ⟨p, hopen, hbooks, hcontinues, -⟩ := h.books.openChannels
      simp only [Router.openChannels, hopen]
      exact ⟨⟨hbooks, h.waiting, h.numbered, h.distinct⟩, hcontinues⟩
  | pass seconds => exact ⟨⟨h.books, h.waiting, h.numbered, h.distinct⟩, .refl _⟩

/-- **An orderly router stays orderly**, and its services stay. -/
theorem Reaches.orderly (hreaches : r.Reaches r') (h : r.Orderly) :
    r'.Orderly ∧ r.pool.Continues r'.pool := by
  induction hreaches with
  | refl => exact ⟨h, .refl _⟩
  | tail _ hstep ih =>
      obtain ⟨horderly, hcontinues⟩ := hstep.orderly ih.1
      exact ⟨horderly, ih.2.trans hcontinues⟩

end Router

/-- Each of some channels is in exactly one place, and no other channel is anywhere. -/
def Pool.InOnePlace (p : Pool) (held channels : List (String × Channel)) : Prop :=
  ∀ a, p.queued.count a + p.leased.count a + held.count a = if a ∈ channels then 1 else 0

/-- Where the channels are accounted for, each is in one place. -/
theorem Pool.Accounts.inOnePlace {p : Pool} {held : List (String × Channel)}
    (h : p.Accounts held) : p.InOnePlace held (if p.opened then p.allChannels else []) := by
  intro a
  have hnodup : (if p.opened then p.allChannels else []).Nodup := h.complete.nodup_iff.mp h.nodup
  have hcount := h.complete.count_eq a
  rw [List.count_append, List.count_append, hnodup.count] at hcount
  exact hcount

/-- **Channels are conserved.**  Whatever happens after services were added, at an office or at a
router: once the channels are open they stay so, each of them is in the queue of its service, with
one user or in the hands of one task or request, and there are no others. -/
theorem channels_conserved (now : Float) (services : List (String × String × String)) :
    (∀ o, Office.Reaches (.offering now services) o →
      o.desk.pool.InOnePlace o.held
          (if o.desk.pool.opened then (Pool.offering now services).allChannels else []) ∧
        ∀ o', o.Step o' → o.desk.pool.opened = true → o'.desk.pool.opened = true) ∧
      ∀ clock r, Router.Reaches (.offering now services clock) r →
        r.pool.InOnePlace r.inUse
            (if r.pool.opened then (Pool.offering now services).allChannels else []) ∧
          ∀ r', r.Step r' → r.pool.opened = true → r'.pool.opened = true := by
  have huntouched := Pool.untouched_offering now services
  constructor
  · intro o hreaches
    obtain ⟨hbooks, hcontinues⟩ := hreaches.books huntouched.accounts
    have hall : o.desk.pool.allChannels = (Pool.offering now services).allChannels :=
      Pool.allChannels_congr hcontinues.services
    refine ⟨?_, ?_⟩
    · rw [← hall]
      exact hbooks.inOnePlace
    · intro o' hstep
      obtain ⟨what, hmoves⟩ := hstep
      exact (hmoves.books hbooks).2.opened
  · intro clock r hreaches
    obtain ⟨horderly, hcontinues⟩ := hreaches.orderly (Router.orderly_of_untouched huntouched clock)
    have hall : r.pool.allChannels = (Pool.offering now services).allChannels :=
      Pool.allChannels_congr hcontinues.services
    refine ⟨?_, fun r' hstep => (hstep.orderly horderly).2.opened⟩
    rw [← hall]
    exact horderly.books.inOnePlace

/-- A dedicated channel whose lease runs out goes to the next task that asks, and two requests that
do not belong to a stream have a channel each. -/
theorem channels_conserved_two_channels :
    (∃ o, Office.Reaches (.offering 1000 [("yolo", "h", "1,2")]) o ∧
      o.held = [("yolo", ⟨0, "h:1"⟩), ("yolo", ⟨1, "h:2"⟩)] ∧
      o.desk.pool.InOnePlace o.held [("yolo", ⟨0, "h:1"⟩), ("yolo", ⟨1, "h:2"⟩)]) ∧
    ∃ r, Router.Reaches (.offering 1000 [("yolo", "h", "1,2")] {}) r ∧
      r.inUse = [("yolo", ⟨0, "h:1"⟩), ("yolo", ⟨1, "h:2"⟩)] ∧
      r.pool.InOnePlace r.inUse [("yolo", ⟨0, "h:1"⟩), ("yolo", ⟨1, "h:2"⟩)] := by
  have hconserved := channels_conserved 1000 [("yolo", "h", "1,2")]
  constructor
  · have hclaim := Relation.ReflTransGen.refl (r := Office.Step)
      (a := .offering 1000 [("yolo", "h", "1,2")]) |>.tail
      ⟨_, .start _ (.claim "yolo" (.text "ann")) 1000 (by simp)⟩
    have hget := hclaim.tail ⟨_, .start _ (.get "yolo") 1001 (by simp)⟩
    have hexpired := hget.tail ⟨_, .start _ (.get "yolo") 1020 (by simp)⟩
    exact ⟨_, hexpired, by decide, (hconserved.1 _ hexpired).1⟩
  · have hfirst := Router.reaches_accept (.offering 1000 [("yolo", "h", "1,2")] {})
      ⟨some "\x7b\x7d", some 3⟩
    have hsecond := hfirst.trans (Router.reaches_accept _ ⟨some "\x7b\x7d", some 3⟩)
    exact ⟨_, hsecond, by decide, (hconserved.2 _ _ hsecond).1⟩

end DronePilot.Service
