import DronePilot.Proofs.Standstill

/-!
# A clean-up reclaims what has run out

A pool may be asked for anything at any time: services are added, errands are run, and tasks that
were woken look again.  Whatever has happened, every user in the books has a lease, and the service
of every lease has a queue.  So a clean-up finds each lease that it ends and a queue for each channel
that it puts back.

* `Pool.Step.provided`, `Pool.Reaches.provided` — what every step, and every run, preserves.
* `Pool.putAll_places` — channels that are put back go to the end of their queues, in order.
* `cleanUp_reclaims_expired` — a clean-up takes the leases that have run out, all of them and no
  others.
-/

namespace DronePilot.Service

namespace Pool

/-- What can be done to a pool, at any time and in any order. -/
inductive Step : Pool → Pool → Prop
  | add (p : Pool) (service host ports : String) : Step p (p.add service host ports)
  | perform (p : Pool) (e : Errand) (task : Nat) (now : Float) : Step p (e.perform p task now).2
  | rouse (p : Pool) (w : Wake) : Step p (p.rouse w).2

/-- The pools that a pool can become. -/
abbrev Reaches : Pool → Pool → Prop := Relation.ReflTransGen Step

/-- Every user in the books has a lease, and every lease is for a service with a queue. -/
structure Provided (p : Pool) : Prop where
  occupied : ∀ e ∈ p.dedicated.entries, e.2.leases.entries ≠ []
  served : ∀ e ∈ p.dedicated.entries, ∀ x ∈ e.2.leases.entries, x.1 ∈ p.queues.keys
  leaseTime : p.leaseTime = Service.leaseTime

section

variable {p p' : Pool} {s : String} {c : Channel} {now : Float} {cs : List (String × Channel)}

/-- Putting a channel back does not clean up. -/
theorem put_lastCleanUp (h : p.put s c = .ok p') : p'.lastCleanUp = p.lastCleanUp := by
  unfold put at h
  cases hqueue : p.queue s with
  | error f => simp [hqueue, bind, Except.bind] at h
  | ok q =>
      rw [hqueue] at h
      cases h
      cases q.line <;> rfl

/-- **Channels that are put into queues** go to the end of the queue of their service, in order, and
nothing else changes but who waits. -/
theorem putAll_places (h : putAll cs p = .ok p') :
    p.Gains p' cs ∧ p'.lastCleanUp = p.lastCleanUp ∧
      ∀ s, p'.free s = p.free s ++ (cs.filter fun e => e.1 = s).map Prod.snd := by
  induction cs generalizing p with
  | nil =>
      cases h
      exact ⟨.refl _, rfl, fun s => by simp⟩
  | cons e cs ih =>
      rw [putAll] at h
      cases hput : p.put e.1 e.2 with
      | error f => simp [hput, bind, Except.bind] at h
      | ok p₁ =>
          rw [hput] at h
          obtain ⟨hgains, hlast, hfree⟩ := ih h
          refine ⟨(put_gains hput).trans hgains, hlast.trans (put_lastCleanUp hput), fun s => ?_⟩
          rw [hfree s, (put_places hput).1 s]
          by_cases hs : s = e.1
          · simp [hs]
          · simp [hs, Ne.symm hs]

namespace Provided

/-- Only the books of users and the services with a queue matter. -/
theorem congr (h : p.Provided) (hdedicated : p'.dedicated = p.dedicated)
    (hkeys : p.queues.keys ⊆ p'.queues.keys) (htime : p'.leaseTime = p.leaseTime) :
    p'.Provided := by
  refine ⟨?_, ?_, htime.trans h.leaseTime⟩
  · rw [hdedicated]
    exact h.occupied
  · rw [hdedicated]
    exact fun e he x hx => hkeys (h.served e he x hx)

/-- A pool that gains channels is still provided. -/
theorem gain (h : p.Provided) (hgains : p.Gains p' cs) : p'.Provided :=
  h.congr hgains.dedicated (by rw [hgains.keys]; exact List.Subset.refl _) hgains.leaseTime

/-- So is one that loses them. -/
theorem lose (h : p.Provided) (hgains : p'.Gains p cs) : p'.Provided :=
  h.congr hgains.dedicated.symm (by rw [hgains.keys]; exact List.Subset.refl _)
    hgains.leaseTime.symm

/-- So is one with one more service. -/
theorem add (h : p.Provided) (service host ports : String) :
    (p.add service host ports).Provided := by
  refine h.congr rfl (fun s hs => ?_) rfl
  simp only [Pool.add, Table.keys_insert]
  split <;> simp [hs]

/-- Whoever gets other leases than before gets one, and only for services with a queue. -/
theorem insert (h : p.Provided) (u : Identity) {t : Tenancy} (hsome : t.leases.entries ≠ [])
    (hserved : ∀ x ∈ t.leases.entries, x.1 ∈ p.queues.keys) :
    { p with dedicated := p.dedicated.insert u t }.Provided := by
  refine ⟨Accounts.occupied_insert h.occupied u hsome, fun e he => ?_, h.leaseTime⟩
  rcases Table.mem_entries_insert he with rfl | he
  · exact hserved
  · exact h.served e he

/-- So is one whose channels are opened. -/
theorem openChannels (h : p.Provided) (hopen : p.openChannels = .ok p') : p'.Provided := by
  unfold Pool.openChannels at hopen
  split at hopen
  · cases hopen
    exact h
  · cases hput : putAll p.allChannels p with
    | error f => simp [hput, bind, Except.bind] at hopen
    | ok q =>
        rw [hput] at hopen
        cases hopen
        exact (h.gain (putAll_places hput).1).congr rfl (List.Subset.refl _) rfl

/-- A clean-up always succeeds: every channel has a queue to go back to. -/
theorem exists_putAll_expired (h : p.Provided) (now : Float) :
    ∃ q, putAll (p.expiredChannels now) { p with lastCleanUp := now } = .ok q ∧
      { p with lastCleanUp := now }.Gains q (p.expiredChannels now) := by
  refine exists_putAll fun e he => ?_
  rw [expiredChannels_eq] at he
  obtain ⟨entry, hentry, hmem⟩ := List.mem_flatMap.mp he
  obtain ⟨x, hx, rfl⟩ := List.mem_map.mp hmem
  exact h.served entry hentry x (List.mem_filter.mp hx).1

/-- So is one that is cleaned up. -/
theorem cleanUp (h : p.Provided) (hclean : p.cleanUp now = .ok p') : p'.Provided := by
  obtain ⟨q, hput, hgains⟩ := h.exists_putAll_expired now
  rw [cleanUp_eq now h.occupied] at hclean
  split at hclean
  · rw [hput] at hclean
    cases hclean
    refine ⟨fun e he => ?_, fun e he x hx => ?_, hgains.leaseTime.trans h.leaseTime⟩
    · simpa using (List.mem_filter.mp he).2
    · obtain ⟨entry, hentry, rfl⟩ := List.mem_map.mp (List.mem_filter.mp he).1
      have hkeys : q.queues.keys = p.queues.keys := hgains.keys
      rw [hkeys]
      exact h.served entry hentry x (List.mem_filter.mp hx).1
  · cases hclean
    exact h

/-- So is one that is prepared for an errand. -/
theorem prepare (h : p.Provided) {e : Errand} (hprepare : e.prepare p now = .ok p') :
    p'.Provided := by
  have hboth (hprepared : (do let p ← p.openChannels; p.cleanUp now) = .ok p') :
      p'.Provided := by
    cases hopen : p.openChannels with
    | error f => simp [hopen, bind, Except.bind] at hprepared
    | ok q =>
        rw [hopen] at hprepared
        exact (h.openChannels hopen).cleanUp hprepared
  cases e with
  | openChannels => exact h.openChannels hprepare
  | cleanUp => exact h.cleanUp hprepare
  | get s => exact hboth hprepare
  | claim s user => exact hboth hprepare
  | release s c =>
      cases hprepare
      exact h

/-- So is one after the claim of a user. -/
theorem claim (h : p.Provided) {user : User} {oc : Option Channel}
    (hclaim : p.claim s user now = .ok (oc, p')) : p'.Provided := by
  rcases claim_cases hclaim with ⟨t, l, hfind, hlease, -, rfl⟩ | ⟨-, -, htake⟩ |
    ⟨c, q, -, -, htake, rfl⟩
  · refine h.insert _ (Table.entries_insert_ne_nil _ _ _) fun x hx => ?_
    have hserved := h.served _ (Table.find?_eq_some_iff.mp hfind)
    rcases Table.mem_entries_insert hx with rfl | hx
    · exact hserved (s, l) (Table.find?_eq_some_iff.mp hlease)
    · exact hserved x hx
  · exact h.lose (take_gains htake)
  · have hgains := take_gains htake
    refine (h.lose hgains).insert _ (Table.entries_insert_ne_nil _ _ _) fun x hx => ?_
    -- A channel can only be taken from a queue.
    obtain ⟨queue, hqueue, -⟩ := take_cases htake
    rcases Table.mem_entries_insert hx with rfl | hx
    · rw [← hgains.keys]
      exact List.mem_map_of_mem (Table.find?_eq_some_iff.mp hqueue)
    · cases hx

/-- **Every errand leaves a pool provided.** -/
theorem perform (h : p.Provided) (e : Errand) (task : Nat) (now : Float) :
    (e.perform p task now).2.Provided := by
  cases hprepare : e.prepare p now with
  | error f => simpa [Errand.perform, hprepare] using h
  | ok q =>
      have hq := h.prepare hprepare
      rw [Errand.perform_of_prepare hprepare]
      cases hact : e.act q task now with
      | error f => exact hq
      | ok got =>
          obtain ⟨oc, q'⟩ := got
          have hq' : q'.Provided := by
            rcases Errand.act_cases hact with ⟨-, rfl⟩ | ⟨s, c, -, -, hput⟩ |
              ⟨s, name, user, c, -, -, -, hclaim⟩ | ⟨s, c, -, -, htake⟩ |
              ⟨s, q₁, -, -, htake, hawait⟩
            · exact hq
            · exact hq.gain (put_gains hput)
            · exact hq.claim hclaim
            · exact hq.lose (take_gains htake)
            · exact (hq.lose (take_gains htake)).lose (await_gains hawait)
          cases oc <;> exact hq'

end Provided

/-- What every step preserves. -/
theorem Step.provided (h : Step p p') (hp : p.Provided) : p'.Provided := by
  cases h with
  | add service host ports => exact hp.add service host ports
  | perform e task now => exact hp.perform e task now
  | rouse w => exact hp.lose (rouse_gains w)

/-- A pool that is provided is so for ever. -/
theorem Reaches.provided (h : Reaches p p') (hp : p.Provided) : p'.Provided := by
  induction h with
  | refl => exact hp
  | tail _ hstep ih => exact hstep.provided ih

theorem provided_new (start : Float) : ({ lastCleanUp := start } : Pool).Provided :=
  ⟨by simp [Table.empty], by simp [Table.empty], rfl⟩

end

end Pool

/-- **A clean-up reclaims exactly the leases that have run out.**  Take any pool that has come about
by adding services, running errands and letting tasks look again, and any time.  A clean-up never
fails.  If the last one was at most 10 s ago, it changes nothing.  Otherwise the books are the old
ones restricted to the leases used at most 10 s ago, in their order and without the users who have
none left; the channel of every other lease goes to the end of the queue of its service, in the order
of the books; and once the leases have been ended, none of the users who had no other is there to be
struck off. -/
theorem cleanUp_reclaims_expired {start : Float} {p : Pool}
    (hreaches : Pool.Reaches { lastCleanUp := start } p) (now : Float) :
    ∃ p', p.cleanUp now = .ok p' ∧
      (¬now - p.lastCleanUp > 10 → p' = p) ∧
      (now - p.lastCleanUp > 10 →
        p'.lastCleanUp = now ∧ p'.services = p.services ∧ p'.opened = p.opened ∧
        p'.queues.keys = p.queues.keys ∧
        p'.dedicated.entries =
          ((p.dedicated.entries.map fun e => (e.1, { e.2 with
              leases := e.2.leases.filter fun _ l => !decide (now - l.stamp > 10) })).filter
            fun e => !e.2.leases.entries.isEmpty) ∧
        (∀ s, p'.free s = p.free s ++
          (p.dedicated.entries.flatMap fun e => (e.2.leases.entries.filter fun x =>
            decide (now - x.2.stamp > 10) && decide (x.1 = s)).map fun x => x.2.channel)) ∧
        Pool.vacateAll (p.expiredKeys now) p.dedicated = .ok p'.dedicated ∧
        ∀ u ∈ p.expiredUsers now, p'.dedicated.contains u = false) := by
  have hp := hreaches.provided (Pool.provided_new start)
  obtain ⟨q, hput, hgains⟩ := hp.exists_putAll_expired now
  obtain ⟨-, hlast, hfree⟩ := Pool.putAll_places hput
  have htime : p.leaseTime = 10 := hp.leaseTime
  have hexpired : ∀ l, p.expired now l = decide (now - l.stamp > 10) := by
    intro l
    rw [Pool.expired, htime]
  have hchannels : ∀ s, ((p.expiredChannels now).filter fun e => e.1 = s).map Prod.snd =
      p.dedicated.entries.flatMap fun e => (e.2.leases.entries.filter fun x =>
        decide (now - x.2.stamp > 10) && decide (x.1 = s)).map fun x => x.2.channel := by
    intro s
    simp [Pool.expiredChannels_eq, hexpired, List.filter_flatMap, List.map_flatMap, List.filter_map,
      List.filter_filter, Function.comp_def, Bool.and_comm]
  rw [Pool.cleanUp_eq now hp.occupied]
  by_cases hdue : now - p.lastCleanUp > 10
  · refine ⟨{ q with dedicated := p.remainingLeases now }, ?_, fun hnot => absurd hdue hnot,
      fun _ => ⟨hlast, hgains.services, hgains.opened, hgains.keys, ?_, fun s => ?_,
        Pool.vacateAll_expiredKeys now hp.occupied, fun u hu => ?_⟩⟩
    · rw [if_pos (by rwa [htime]), hput]
      rfl
    · simp only [Pool.remainingLeases, Pool.unexpired, Table.entries_filter,
        Table.entries_mapValues, hexpired]
    · rw [← hchannels s]
      exact hfree s
    · have hgone := Pool.not_mem_of_mem_expiredUsers hu
      simpa [Table.contains] using hgone
  · exact ⟨p, if_neg (by rwa [htime]), fun _ => rfl, fun h => absurd h hdue⟩

/-- A pool of two channels, of which ann got one and bob the other 8 s later. -/
def Pool.twoTenants : Pool :=
  let offered := ({ lastCleanUp := 1000 } : Pool).add "yolo" "h" "1,2"
  let first := ((Errand.claim "yolo" (.text "ann")).perform offered 0 1000).2
  ((Errand.claim "yolo" (.text "bob")).perform first 1 1008).2

/-- Eleven seconds after ann's only request a clean-up takes ann's channel, and bob keeps the
other. -/
theorem cleanUp_reclaims_expired_twoTenants :
    Pool.Reaches { lastCleanUp := 1000 } .twoTenants ∧
      Pool.twoTenants.dedicated.keys = [.named "ann", .named "bob"] ∧
      Pool.twoTenants.free "yolo" = [] ∧
      ∃ p', Pool.twoTenants.cleanUp 1011 = .ok p' ∧ p'.dedicated.keys = [.named "bob"] ∧
        p'.free "yolo" = [⟨0, "h:1"⟩] := by
  have hreaches : Pool.Reaches { lastCleanUp := 1000 } .twoTenants :=
    ((Relation.ReflTransGen.single (.add _ "yolo" "h" "1,2")).tail
      (.perform _ (.claim "yolo" (.text "ann")) 0 1000)).tail
      (.perform _ (.claim "yolo" (.text "bob")) 1 1008)
  refine ⟨hreaches, by decide, by decide, ?_⟩
  obtain ⟨p', hclean, -, hdue⟩ := cleanUp_reclaims_expired hreaches 1011
  obtain ⟨-, -, -, -, hentries, hfree, -, -⟩ := hdue (by decide)
  refine ⟨p', hclean, ?_, ?_⟩
  · rw [Table.keys, hentries]
    decide
  · rw [hfree]
    decide

end DronePilot.Service
