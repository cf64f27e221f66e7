import DronePilot.Proofs.Tenure
import Mathlib.Data.List.Pairwise

/-!
# Two requests on one channel

A request that does not belong to a stream takes a channel that is free and gives it back when the
worker has answered, so two such requests never use one channel.  A request of a stream uses the
channel of its user, and so do the other requests of the same stream.  A clean-up does not ask
whether a worker is still busy: it looks at the lease alone, and the channel of a request that
outlives the lease goes to somebody else, whose request may belong to a stream or not.

* `Pool.Accounts.eq_of_leaseOf` — two users never have one channel.
* `Router.Step.rents`, `Router.Run.rents` — what a step and a run do to the lease under a request of
  a stream.
* `shared_channel_outlived` — two requests share a channel only if one of them outlived its lease.
-/

namespace DronePilot.Service

namespace Pool

variable {p p' : Pool} {held : List (String × Channel)} {u u' : Identity} {s : String}
  {l l' : Lease} {c : Channel} {now : Float}

/-- The channel of a lease is one of those that users have. -/
theorem mem_leased (hl : p.leaseOf u s = some l) : (s, l.channel) ∈ p.leased := by
  obtain ⟨t, hfind, hlease⟩ := Option.bind_eq_some_iff.mp hl
  refine List.mem_flatMap.mpr ⟨(u, t), Table.find?_eq_some_iff.mp hfind, ?_⟩
  exact List.mem_map.mpr ⟨(s, l), Table.find?_eq_some_iff.mp hlease, rfl⟩

/-- **Two users never have one channel.** -/
theorem Accounts.eq_of_leaseOf (h : p.Accounts held) (hl : p.leaseOf u s = some l)
    (hl' : p.leaseOf u' s = some l') (hsame : l.channel = l'.channel) : u = u' := by
  obtain ⟨t, hfind, hlease⟩ := Option.bind_eq_some_iff.mp hl
  obtain ⟨t', hfind', hlease'⟩ := Option.bind_eq_some_iff.mp hl'
  have hleased : p.leased.Nodup := (List.nodup_append.mp (List.nodup_append.mp h.nodup).1).2.1
  have hapart := (List.nodup_flatMap.mp hleased).2
  by_contra hne
  have : Std.Symm (Function.onFun List.Disjoint fun e : Identity × Tenancy => e.2.channels) :=
    ⟨fun _ _ hd _ ha hb => hd hb ha⟩
  have hdisjoint := hapart.forall (Table.find?_eq_some_iff.mp hfind)
    (Table.find?_eq_some_iff.mp hfind') fun heq => hne (Prod.mk.inj heq).1
  have hmem : (s, l.channel) ∈ t.channels :=
    List.mem_map.mpr ⟨(s, l), Table.find?_eq_some_iff.mp hlease, rfl⟩
  have hmem' : (s, l.channel) ∈ t'.channels :=
    List.mem_map.mpr ⟨(s, l'), Table.find?_eq_some_iff.mp hlease', by rw [hsame]⟩
  exact hdisjoint hmem hmem'

/-- An errand leaves a user the channel of a lease that has not run out. -/
theorem Accounts.perform_keeps (h : p.Accounts held) (e : Errand) (task : Nat)
    (hl : p.leaseOf u s = some l) :
    (∃ l', (e.perform p task now).2.leaseOf u s = some l' ∧ l'.channel = l.channel) ∨
      p.expired now l = true := by
  cases hexpired : p.expired now l with
  | true => exact .inr rfl
  | false =>
      left
      by_cases hasks : e.AsksFor task u s
      · exact ⟨_, (h.perform_asked hl hexpired hasks).2, rfl⟩
      · exact ⟨l, h.perform_leaseOf hl hexpired hasks, rfl⟩

/-- A dedicated request that is answered with a channel leaves the user the lease of it. -/
theorem Accounts.perform_claim_some (h : p.Accounts held) {task : Nat} {name : Document}
    (hperform : (Errand.claim s name).perform p task now = (some (.ok (some c)), p')) :
    ∃ user, User.ofDocument task name = .ok user ∧
      p'.leaseOf user.identity s = some { channel := c, stamp := now } := by
  obtain ⟨q, hprepare, -⟩ := h.prepare now (.claim s name)
  cases huser : User.ofDocument task name with
  | error f =>
      rw [Errand.perform_of_prepare hprepare] at hperform
      simp [Errand.act, huser, bind, Except.bind] at hperform
  | ok user =>
      rw [Errand.perform_claim hprepare huser] at hperform
      cases hclaim : q.claim s user now with
      | error f => simp [hclaim] at hperform
      | ok got =>
          obtain ⟨oc, q'⟩ := got
          rw [hclaim] at hperform
          cases hperform
          refine ⟨user, rfl, ?_⟩
          rcases claim_cases hclaim with ⟨t, l, -, -, hchannel, rfl⟩ | ⟨-, hnone, -⟩ |
            ⟨-, -, -, hnone, -, -⟩
          · cases hchannel
            rw [leaseOf_insert (p := q) rfl, if_pos rfl, Table.find?_insert_self]
          · cases hnone
          · cases hnone

end Pool

/-- The user of a request, if it names one. -/
def OpenJob.user? (w : OpenJob) : Option Identity :=
  (User.ofDocument w.job.task w.job.user).toOption.map User.identity

/-- The channel of a request is the one that its user has a lease of. -/
def OpenJob.Rents (w : OpenJob) (p : Pool) (l : Lease) : Prop :=
  ∃ u, w.user? = some u ∧ p.leaseOf u detectionService = some l ∧ w.channel = some l.channel

namespace Router

variable {r r' : Router} {w w' : OpenJob} {l : Lease} {c : Channel}

theorem rents_congr {p p' : Pool} (h : p'.dedicated = p.dedicated) (hrents : w.Rents p l) :
    w.Rents p' l := by
  obtain ⟨u, huser, hl, hchannel⟩ := hrents
  exact ⟨u, huser, by rw [Pool.leaseOf_congr h, hl], hchannel⟩

theorem dedicated_giveBack {p p' : Pool} (h : giveBack w p = .ok p') :
    p'.dedicated = p.dedicated := by
  unfold giveBack at h
  split at h
  · exact (Pool.put_gains h).dedicated
  · cases h
    rfl

/-- The leases after a worker has answered, and the requests that are left. -/
theorem conclude_frame (r : Router) (call : Nat) (reply : Option String) :
    (r.conclude call reply).2.pool.dedicated = r.pool.dedicated ∧
      ∀ w ∈ (r.conclude call reply).2.working, w ∈ r.working := by
  unfold Router.conclude
  split
  · exact ⟨rfl, fun w hw => hw⟩
  · next w hfind =>
      simp only
      split
      · exact ⟨rfl, fun w hw => (List.mem_filter.mp hw).1⟩
      · next p hback => exact ⟨dedicated_giveBack hback, fun w hw => (List.mem_filter.mp hw).1⟩

/-- The leases after a request has looked again.  It does not belong to a stream. -/
theorem lookAgain_frame (hwaiting : ∀ job, r.turn = some job → job.stream = false) :
    r.lookAgain.pool.dedicated = r.pool.dedicated ∧
      ∀ w ∈ r.lookAgain.working, w ∈ r.working ∨ w.job.stream = false := by
  unfold Router.lookAgain
  split
  · exact ⟨rfl, fun w hw => .inl hw⟩
  · next job hturn =>
      have hgains := Pool.rouse_gains (p := r.pool)
        { service := detectionService, task := job.task }
      simp only
      split
      · split
        · next c p hrouse =>
            rw [hrouse] at hgains
            refine ⟨hgains.dedicated.symm, fun w hw => ?_⟩
            rcases List.mem_append.mp hw with hw | hw
            · exact .inl hw
            · obtain rfl := List.mem_singleton.mp hw
              exact .inr (hwaiting job hturn)
        · next p hrouse =>
            rw [hrouse] at hgains
            exact ⟨hgains.dedicated.symm, fun w hw => .inl hw⟩
      · exact ⟨rfl, fun w hw => .inl hw⟩

/-- Giving a request its turn. -/
theorem Orderly.lookFor_rents (h : r.Orderly) (job : Job) (hw : w ∈ (r.lookFor job).working)
    (hstream : w.job.stream = true) (hchannel : w.channel = some c) :
    (w ∈ r.working ∧ ∀ l, w.Rents r.pool l →
      (∃ l', w.Rents (r.lookFor job).pool l') ∨ r.pool.expired r.clock.now l = true) ∨
    ∃ l, w.Rents (r.lookFor job).pool l := by
  have hkeeps : ∀ l, w.Rents r.pool l →
      (∃ l', w.Rents ((errandOf job).perform r.pool job.task r.clock.now).2 l') ∨
        r.pool.expired r.clock.now l = true := by
    intro l hrents
    obtain ⟨u, huser, hl, hlease⟩ := hrents
    rcases h.books.perform_keeps (errandOf job) job.task hl with ⟨l', hl', hsame⟩ | hexpired
    · exact .inl ⟨l', u, huser, hl', by rw [hlease, hsame]⟩
    · exact .inr hexpired
  unfold Router.lookFor at hw ⊢
  cases hperform : (errandOf job).perform r.pool job.task r.clock.now with
  | mk outcome p =>
      rw [hperform] at hkeeps
      rw [hperform] at hw
      rcases outcome with _ | f | channel
      · exact .inl ⟨hw, hkeeps⟩
      · exact .inl ⟨hw, hkeeps⟩
      · rcases List.mem_append.mp hw with hw | hw
        · exact .inl ⟨hw, hkeeps⟩
        · right
          obtain rfl := List.mem_singleton.mp hw
          have hclaim : errandOf job = .claim detectionService job.user := if_pos hstream
          obtain rfl : channel = some c := hchannel
          rw [hclaim] at hperform
          obtain ⟨user, huser, hl⟩ := h.books.perform_claim_some hperform
          exact ⟨_, user.identity, by simp [OpenJob.user?, huser, Except.toOption], hl, rfl⟩

/-- **What a step does to the lease under a request of a stream.**  It stays unless it has run out,
and a new request has one. -/
theorem Step.rents (hstep : Step r r') (h : r.Orderly) (hw : w ∈ r'.working)
    (hstream : w.job.stream = true) (hchannel : w.channel = some c) :
    (w ∈ r.working ∧ ∀ l, w.Rents r.pool l →
      (∃ l', w.Rents r'.pool l') ∨ r.pool.expired r.clock.now l = true) ∨
    ∃ l, w.Rents r'.pool l := by
  cases hstep with
  | takeIn q =>
      obtain ⟨hpool, hworking, -, -⟩ := takeIn_frame r q
      rw [hworking] at hw
      exact .inl ⟨hw, fun l hl => .inl ⟨l, by rwa [hpool]⟩⟩
  | next =>
      unfold Router.next at hw ⊢
      split at hw
      · next job rest hfree hline =>
          exact Orderly.lookFor_rents (r := { r with line := rest })
            ⟨h.books, h.waiting, h.numbered, h.distinct⟩ job hw hstream hchannel
      · exact .inl ⟨hw, fun l hl => .inl ⟨l, hl⟩⟩
  | lookAgain =>
      obtain ⟨hdedicated, hworking⟩ := lookAgain_frame h.waiting
      rcases hworking w hw with hw | hsingle
      · exact .inl ⟨hw, fun l hl => .inl ⟨l, rents_congr hdedicated hl⟩⟩
      · rw [hstream] at hsingle
        cases hsingle
  | conclude call reply =>
      obtain ⟨hdedicated, hworking⟩ := conclude_frame r call reply
      exact .inl ⟨hworking w hw, fun l hl => .inl ⟨l, rents_congr hdedicated hl⟩⟩
  | openChannels =>
      obtain ⟨p, hopen, -, -, hdedicated⟩ := h.books.openChannels
      simp only [Router.openChannels, hopen] at hw ⊢
      exact .inl ⟨hw, fun l hl => .inl ⟨l, rents_congr hdedicated hl⟩⟩
  | pass seconds => exact .inl ⟨hw, fun l hl => .inl ⟨l, hl⟩⟩

/-- The request of a stream whose lease ran out before the worker answered: at some moment of a run
its user had the lease still, though it was used too long ago, and at the next no more. -/
def Outlived (run : List Router) (w : OpenJob) : Prop :=
  ∃ r₁ r₂ l, [r₁, r₂] <:+: run ∧ w ∈ r₁.working ∧ w.job.stream = true ∧ w.Rents r₁.pool l ∧
    r₁.clock.now - l.stamp > leaseTime ∧ ∀ l', ¬w.Rents r₂.pool l'

/-- Whatever has outlived its lease still has later. -/
theorem Outlived.later {run : List Router} (h : Outlived run w) (r : Router) :
    Outlived (run ++ [r]) w := by
  obtain ⟨r₁, r₂, l, hmoment, hrest⟩ := h
  exact ⟨r₁, r₂, l, hmoment.trans (List.prefix_append run [r]).isInfix, hrest⟩

/-- **The channel of a request of a stream** is its user's, or the request has outlived its
lease. -/
theorem Run.rents {start : Router} {past : List Router} (hrun : Run start past r)
    (h : start.Orderly) (hnew : start.working = [])
    (htime : start.pool.leaseTime = Service.leaseTime)
    (hw : w ∈ r.working) (hstream : w.job.stream = true) (hchannel : w.channel = some c) :
    (∃ l, w.Rents r.pool l) ∨ Outlived (past ++ [r]) w := by
  induction hrun with
  | start => simp [hnew] at hw
  | @step past r₁ r₂ before move ih =>
      obtain ⟨horderly, hcontinues⟩ := before.reaches.orderly h
      rcases move.rents horderly hw hstream hchannel with ⟨hold, hkeeps⟩ | hrents
      · rcases ih hold with ⟨l, hl⟩ | houtlived
        · by_cases hrents : ∃ l', w.Rents r₂.pool l'
          · exact .inl hrents
          · right
            have hexpired := (hkeeps l hl).resolve_left hrents
            have hlate : r₁.clock.now - l.stamp > leaseTime := by
              simpa [Pool.expired, hcontinues.leaseTime, htime] using hexpired
            have hmoment : [r₁, r₂] <:+: past ++ [r₁] ++ [r₂] := by
              rw [List.append_assoc]
              exact (List.suffix_append past [r₁, r₂]).isInfix
            exact ⟨r₁, r₂, l, hmoment, hold, hstream, hl, hlate, not_exists.mp hrents⟩
        · exact .inr (houtlived.later r₂)
      · exact .inl hrents

/-- Two requests that do not belong to a stream never hold one channel. -/
theorem Orderly.eq_of_hold? (h : r.Orderly) {a : String × Channel} (hw : w ∈ r.working)
    (hw' : w' ∈ r.working) (hhold : w.hold? = some a) (hhold' : w'.hold? = some a) : w = w' := by
  have hnodup : (r.working.filterMap OpenJob.hold?).Nodup :=
    (List.nodup_append.mp h.books.nodup).2.1
  have hapart := List.pairwise_filterMap.mp hnodup
  by_contra hne
  have : Std.Symm fun w w' : OpenJob => ∀ a, w.hold? = some a → ∀ b, w'.hold? = some b → a ≠ b :=
    ⟨fun _ _ hd a ha b hb heq => hd b hb a ha heq.symm⟩
  exact hapart.forall hw hw' hne a hhold a hhold' rfl

/-- A request that does not belong to a stream holds no channel of a user. -/
theorem Orderly.not_rents_of_hold? (h : r.Orderly) (hw : w ∈ r.working)
    (hhold : w.hold? = some (detectionService, c)) (hchannel : w'.channel = some c) :
    ¬w'.Rents r.pool l := by
  intro hrents
  obtain ⟨u, -, hl, hlease⟩ := hrents
  obtain rfl : c = l.channel := Option.some.inj (hchannel.symm.trans hlease)
  have huse : (detectionService, l.channel) ∈ r.inUse := List.mem_filterMap.mpr ⟨w, hw, hhold⟩
  have hapart := (List.nodup_append.mp h.books.nodup).2.2
  exact hapart _ (List.mem_append_right _ (Pool.mem_leased hl)) _ huse rfl

end Router

/-- **Two requests use one channel only if one of them has outlived its lease.**  They are requests
of different users, or one of them does not belong to a stream.  Only a request of a stream has a
lease, so two requests that do not belong to one never use one channel. -/
theorem shared_channel_outlived (now : Float) (services : List (String × String × String))
    (clock : Clock) {past : List Router} {r : Router}
    (hrun : Router.Run (.offering now services clock) past r) {w w' : OpenJob}
    (hw : w ∈ r.working) (hw' : w' ∈ r.working) (hcalls : w.call ≠ w'.call) {c : Channel}
    (hchannel : w.channel = some c) (hchannel' : w'.channel = some c)
    (hapart : w.job.stream = false ∨ w'.job.stream = false ∨ w.user? ≠ w'.user?) :
    Router.Outlived (past ++ [r]) w ∨ Router.Outlived (past ++ [r]) w' := by
  have huntouched := Pool.untouched_offering now services
  have hstart := Router.orderly_of_untouched huntouched clock
  obtain ⟨horderly, -⟩ := hrun.reaches.orderly hstart
  have hrents : ∀ {w}, w ∈ r.working → w.channel = some c → w.job.stream = true →
      (∃ l, w.Rents r.pool l) ∨ Router.Outlived (past ++ [r]) w :=
    fun hw hchannel hstream => hrun.rents hstart rfl huntouched.leaseTime hw hstream hchannel
  have hholds : ∀ {w : OpenJob}, w.channel = some c → w.job.stream = false →
      w.hold? = some (detectionService, c) := by
    intro w hchannel hstream
    simp [OpenJob.hold?, hstream, hchannel]
  cases hstream : w.job.stream with
  | false =>
      have hhold := hholds hchannel hstream
      cases hstream' : w'.job.stream with
      | false =>
          have hsame := horderly.eq_of_hold? hw hw' hhold (hholds hchannel' hstream')
          exact absurd (congrArg OpenJob.call hsame) hcalls
      | true =>
          rcases hrents hw' hchannel' hstream' with ⟨l, hl⟩ | houtlived
          · exact absurd hl (horderly.not_rents_of_hold? hw hhold hchannel')
          · exact .inr houtlived
  | true =>
      rcases hrents hw hchannel hstream with ⟨l, hl⟩ | houtlived
      · cases hstream' : w'.job.stream with
        | false =>
            have hhold' := hholds hchannel' hstream'
            exact absurd hl (horderly.not_rents_of_hold? hw' hhold' hchannel)
        | true =>
            rcases hrents hw' hchannel' hstream' with ⟨l', hl'⟩ | houtlived'
            · obtain ⟨u, huser, hlease, hc⟩ := hl
              obtain ⟨u', huser', hlease', hc'⟩ := hl'
              have hsame : l.channel = l'.channel := by
                rw [← Option.some.injEq, ← hc, ← hc', hchannel, hchannel']
              have huu := horderly.books.eq_of_leaseOf hlease hlease' hsame
              simp [hstream, hstream', huser, huser', huu] at hapart
            · exact .inr houtlived'
      · exact .inl houtlived

/-- A router with one channel, which a user has asked for twice. -/
def Router.askedTwice : Router :=
  let ask : Inquiry := ⟨some "\x7b\"user_name\": \"ann\", \"stream_mode\": true\x7d", some 3⟩
  ((Router.offering 1000 [("yolo", "h", "1")] {}).accept ask).accept ask

/-- The same router, which has given the channel to somebody else after eleven seconds. -/
def Router.reclaimed : Router :=
  { Router.askedTwice with clock := Router.askedTwice.clock.pass 11 }.accept
    ⟨some "\x7b\"user_name\": \"bob\"\x7d", some 3⟩

theorem Router.reaches_reclaimed :
    Router.Reaches (.offering 1000 [("yolo", "h", "1")] {}) Router.reclaimed :=
  ((((Router.reaches_accept _ _).trans (Router.reaches_accept _ _)).tail (.pass _ 11)).trans
    (Router.reaches_accept _ _))

/-- The requests at work there.  The first one was told of no channel. -/
theorem Router.working_reclaimed :
    Router.reclaimed.working =
      [⟨0, ⟨0, .text "ann", true, .null, .float 0.2, 3⟩, none⟩,
        ⟨1, ⟨1, .text "ann", true, .null, .float 0.2, 3⟩, some ⟨0, "h:1"⟩⟩,
        ⟨2, ⟨2, .text "bob", false, .null, .float 0.2, 3⟩, some ⟨0, "h:1"⟩⟩] := by
  rfl

/-- The stream request that was not answered has outlived its lease. -/
theorem shared_channel_outlived_reclaimed :
    ∃ past, Router.Run (.offering 1000 [("yolo", "h", "1")] {}) past Router.reclaimed ∧
      ∃ w ∈ Router.reclaimed.working, ∃ w' ∈ Router.reclaimed.working,
        w.channel = some ⟨0, "h:1"⟩ ∧ w'.channel = some ⟨0, "h:1"⟩ ∧ w.user? ≠ w'.user? ∧
          (Router.Outlived (past ++ [Router.reclaimed]) w ∨
            Router.Outlived (past ++ [Router.reclaimed]) w') := by
  obtain ⟨past, hrun⟩ := Router.reaches_reclaimed.exists_run
  have hworking := Router.working_reclaimed
  have hw : ⟨1, ⟨1, .text "ann", true, .null, .float 0.2, 3⟩, some ⟨0, "h:1"⟩⟩ ∈
      Router.reclaimed.working := by
    simp [hworking]
  have hw' : ⟨2, ⟨2, .text "bob", false, .null, .float 0.2, 3⟩, some ⟨0, "h:1"⟩⟩ ∈
      Router.reclaimed.working := by
    simp [hworking]
  exact ⟨past, hrun, _, hw, _, hw', rfl, rfl, by decide,
    shared_channel_outlived 1000 [("yolo", "h", "1")] {} hrun hw hw' (by decide) rfl rfl
      (.inr (.inl rfl))⟩

/-- Two requests of different users use one channel: the first of them, which belongs to a stream,
has been busy for longer than a lease lasts. -/
theorem slow_stream_shares_channel :
    ∃ r, Router.Reaches (.offering 1000 [("yolo", "h", "1")] {}) r ∧
      ∃ w ∈ r.working, ∃ w' ∈ r.working,
        w.user? = some (.named "ann") ∧ w'.user? = some (.named "bob") ∧
          w.channel = some ⟨0, "h:1"⟩ ∧ w'.channel = some ⟨0, "h:1"⟩ := by
  have hworking := Router.working_reclaimed
  exact ⟨Router.reclaimed, Router.reaches_reclaimed,
    ⟨1, ⟨1, .text "ann", true, .null, .float 0.2, 3⟩, some ⟨0, "h:1"⟩⟩, by simp [hworking],
    ⟨2, ⟨2, .text "bob", false, .null, .float 0.2, 3⟩, some ⟨0, "h:1"⟩⟩, by simp [hworking],
    rfl, rfl, rfl, rfl⟩

end DronePilot.Service
