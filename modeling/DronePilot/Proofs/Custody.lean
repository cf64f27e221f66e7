import DronePilot.Proofs.Vacating
import Mathlib.Data.List.Perm.Basic

/-!
# Where the channels are

A channel of a pool is in the queue of its service, dedicated to a user, or in the hands of a task
that took it out.  What the pool does moves channels from one of these places to another.  Putting
channels into queues is described by `Pool.Gains`, and taking one out is the same read backwards; a
clean-up moves channels from users to queues, and a claim one from a queue to a user.

The books of a pool (`Pool.Accounts`) say that the channels in the three places together are the
channels that were opened.

* `Pool.Accounts.prepare` — opening and cleaning up never fail, and keep the books in order.
* `Pool.Accounts.perform`, `Pool.Accounts.rouse` — so does every errand, whether it succeeds, fails
  or waits, and every task that looks again.
-/

namespace DronePilot.Service

/-- The channels of a user, each with its service. -/
def Tenancy.channels (t : Tenancy) : List (String × Channel) :=
  t.leases.entries.map fun e => (e.1, e.2.channel)

namespace Pool

/-- The channels in queues, each with the service of its queue. -/
def queued (p : Pool) : List (String × Channel) :=
  p.queues.entries.flatMap fun e => e.2.channels.map fun c => (e.1, c)

/-- The channels that are dedicated to users, each with its service. -/
def leased (p : Pool) : List (String × Channel) :=
  p.dedicated.entries.flatMap fun e => e.2.channels

/-- A pool with further channels in its queues.  Who waits for channels may have changed as well. -/
structure Gains (p p' : Pool) (cs : List (String × Channel)) : Prop where
  services : p'.services = p.services
  keys : p'.queues.keys = p.queues.keys
  opened : p'.opened = p.opened
  dedicated : p'.dedicated = p.dedicated
  leaseTime : p'.leaseTime = p.leaseTime
  queued : p'.queued.Perm (cs ++ p.queued)

/-- A pool later on: it has the same services, and channels that were open stay open. -/
structure Continues (p p' : Pool) : Prop where
  services : p'.services = p.services
  leaseTime : p'.leaseTime = p.leaseTime
  opened : p.opened = true → p'.opened = true

section

variable {p p' p'' : Pool} {s : String} {c : Channel} {q : Queue}
  {cs ds : List (String × Channel)}

/-- A pool that stays as it is gains nothing. -/
theorem Gains.refl (p : Pool) : p.Gains p [] :=
  ⟨rfl, rfl, rfl, rfl, rfl, .refl _⟩

/-- What is gained in two steps is gained. -/
theorem Gains.trans (h : p.Gains p' cs) (h' : p'.Gains p'' ds) : p.Gains p'' (cs ++ ds) := by
  refine ⟨h'.services.trans h.services, h'.keys.trans h.keys, h'.opened.trans h.opened,
    h'.dedicated.trans h.dedicated, h'.leaseTime.trans h.leaseTime, ?_⟩
  rw [List.perm_iff_count]
  intro a
  have hfirst := h.queued.count_eq a
  have hsecond := h'.queued.count_eq a
  simp only [List.count_append] at hfirst hsecond ⊢
  omega

theorem Continues.refl (p : Pool) : p.Continues p := ⟨rfl, rfl, id⟩

/-- What continues in two steps continues. -/
theorem Continues.trans (h : p.Continues p') (h' : p'.Continues p'') : p.Continues p'' :=
  ⟨h'.services.trans h.services, h'.leaseTime.trans h.leaseTime, h'.opened ∘ h.opened⟩

/-- A pool that gains channels continues. -/
theorem Gains.continues (h : p.Gains p' cs) : p.Continues p' :=
  ⟨h.services, h.leaseTime, h.opened.trans⟩

/-- So does one that loses them. -/
theorem Gains.continues_back (h : p'.Gains p cs) : p.Continues p' :=
  ⟨h.services.symm, h.leaseTime.symm, h.opened.symm.trans⟩

/-- What is in the queues when the queue of one service is replaced. -/
theorem count_queued_insert (h : p.queues.find? s = some q) (q' : Queue) (woken : List Wake)
    (a : String × Channel) :
    { p with queues := p.queues.insert s q', woken := woken }.queued.count a +
        (q.channels.map fun c => (s, c)).count a =
      p.queued.count a + (q'.channels.map fun c => (s, c)).count a := by
  obtain ⟨before, after, hentries, hinsert⟩ := Table.exists_entries_insert h
  simp only [queued, hentries, hinsert, List.flatMap_append, List.flatMap_cons, List.count_append]
  omega

/-- A queue is changed in its place. -/
theorem keys_insert_queue (h : p.queues.find? s = some q) (q' : Queue) :
    (p.queues.insert s q').keys = p.queues.keys := by
  have hmem : s ∈ p.queues.keys := List.mem_map_of_mem (Table.find?_eq_some_iff.mp h)
  simp [Table.keys_insert, hmem]

/-- A queue that gets a channel. -/
theorem gains_insert {q' : Queue} (h : p.queues.find? s = some q)
    (hq : q'.channels.Perm (c :: q.channels)) (woken : List Wake) :
    p.Gains { p with queues := p.queues.insert s q', woken := woken } [(s, c)] := by
  refine ⟨rfl, keys_insert_queue h q', rfl, rfl, rfl, ?_⟩
  rw [List.perm_iff_count]
  intro a
  have hinsert := count_queued_insert h q' woken a
  have hcount := (hq.map fun c => (s, c)).count_eq a
  simp only [List.map_cons, List.count_cons, List.count_append, List.count_nil] at hcount ⊢
  omega

/-- A queue that loses its first channel. -/
theorem insert_gains {rest : List Channel} (h : p.queues.find? s = some q)
    (hq : q.channels = c :: rest) :
    { p with queues := p.queues.insert s { q with channels := rest } }.Gains p [(s, c)] := by
  refine ⟨rfl, (keys_insert_queue h _).symm, rfl, rfl, rfl, ?_⟩
  rw [List.perm_iff_count]
  intro a
  have hinsert := count_queued_insert h { q with channels := rest } p.woken a
  simp only [hq, List.map_cons, List.count_cons, List.count_append, List.count_nil] at hinsert ⊢
  omega

/-- The queue of a service that has one. -/
theorem queue_of_find? (h : p.queues.find? s = some q) : p.queue s = .ok q := by
  simp [queue, h]

/-- A service without a queue has no channels to ask for. -/
theorem queue_of_not_mem (h : s ∉ p.queues.keys) : p.queue s = .error .noSuchKey := by
  simp [queue, Table.find?_eq_none_iff.mpr h]

/-- A service among the keys has a queue. -/
theorem exists_queue (h : s ∈ p.queues.keys) : ∃ q, p.queues.find? s = some q := by
  cases hq : p.queues.find? s with
  | none => exact absurd h (Table.find?_eq_none_iff.mp hq)
  | some q => exact ⟨q, rfl⟩

/-- A channel can be put into the queue of every service that has one. -/
theorem exists_put (h : s ∈ p.queues.keys) (c : Channel) :
    ∃ p', p.put s c = .ok p' ∧ p.Gains p' [(s, c)] := by
  obtain ⟨q, hq⟩ := exists_queue h
  have hperm : (q.channels ++ [c]).Perm (c :: q.channels) := List.perm_append_comm
  cases hline : q.line with
  | nil =>
      refine ⟨{ p with queues := p.queues.insert s { q with channels := q.channels ++ [c] } }, ?_,
        gains_insert hq hperm p.woken⟩
      simp [put, queue_of_find? hq, bind, Except.bind, pure, Except.pure, hline]
  | cons task line =>
      refine ⟨{ p with
        queues := p.queues.insert s { channels := q.channels ++ [c], line := line }
        woken := p.woken ++ [{ service := s, task := task }] }, ?_,
        gains_insert hq hperm _⟩
      simp [put, queue_of_find? hq, bind, Except.bind, pure, Except.pure, hline]

/-- Putting a channel back gains it. -/
theorem put_gains (h : p.put s c = .ok p') : p.Gains p' [(s, c)] := by
  by_cases hserved : s ∈ p.queues.keys
  · obtain ⟨p₁, hput, hgains⟩ := exists_put hserved c
    rw [h] at hput
    cases hput
    exact hgains
  · simp [put, queue_of_not_mem hserved, bind, Except.bind] at h

/-- Several channels can be put into queues, one after the other. -/
theorem exists_putAll (h : ∀ e ∈ cs, e.1 ∈ p.queues.keys) :
    ∃ p', putAll cs p = .ok p' ∧ p.Gains p' cs := by
  induction cs generalizing p with
  | nil => exact ⟨p, rfl, .refl p⟩
  | cons e cs ih =>
      obtain ⟨p₁, hput, hgains⟩ := exists_put (h e List.mem_cons_self) e.2
      have hkeys : ∀ e' ∈ cs, e'.1 ∈ p₁.queues.keys := by
        intro e' he'
        rw [hgains.keys]
        exact h e' (List.mem_cons_of_mem e he')
      obtain ⟨p₂, hrest, hgains'⟩ := ih hkeys
      refine ⟨p₂, ?_, hgains.trans hgains'⟩
      simp [putAll, hput, hrest, bind, Except.bind]

/-- What taking a channel comes to: the first one in the queue, if there is one. -/
theorem take_cases {oc : Option Channel} (h : p.take s = .ok (oc, p')) :
    ∃ q, p.queues.find? s = some q ∧ (q.channels = [] ∧ oc = none ∧ p' = p ∨
      ∃ c rest, q.channels = c :: rest ∧ oc = some c ∧
        p' = { p with queues := p.queues.insert s { q with channels := rest } }) := by
  cases hq : p.queues.find? s with
  | none =>
      rw [take, queue_of_not_mem (Table.find?_eq_none_iff.mp hq)] at h
      cases h
  | some q =>
      rw [take, queue_of_find? hq] at h
      refine ⟨q, rfl, ?_⟩
      cases hchannels : q.channels with
      | nil =>
          simp only [bind, Except.bind, pure, Except.pure, hchannels] at h
          cases h
          exact .inl ⟨rfl, rfl, rfl⟩
      | cons c rest =>
          simp only [bind, Except.bind, pure, Except.pure, hchannels] at h
          cases h
          exact .inr ⟨c, rest, rfl, rfl, rfl⟩

/-- A channel that is taken from a queue leaves the pool. -/
theorem take_gains {oc : Option Channel} (h : p.take s = .ok (oc, p')) :
    p'.Gains p (oc.toList.map fun c => (s, c)) := by
  obtain ⟨q, hq, ⟨-, rfl, rfl⟩ | ⟨c, rest, hchannels, rfl, rfl⟩⟩ := take_cases h
  · exact .refl p'
  · exact insert_gains hq hchannels

/-- What waiting comes to: a place at the end of the line. -/
theorem await_cases {task : Nat} (h : p.await s task = .ok p') :
    ∃ q, p.queues.find? s = some q ∧
      p' = { p with queues := p.queues.insert s { q with line := q.line ++ [task] } } := by
  cases hq : p.queues.find? s with
  | none =>
      rw [await, queue_of_not_mem (Table.find?_eq_none_iff.mp hq)] at h
      cases h
  | some q =>
      rw [await, queue_of_find? hq] at h
      cases h
      exact ⟨q, rfl, rfl⟩

/-- Waiting in line moves no channel. -/
theorem await_gains {task : Nat} (h : p.await s task = .ok p') : p'.Gains p [] := by
  obtain ⟨q, hq, rfl⟩ := await_cases h
  refine ⟨rfl, (keys_insert_queue hq _).symm, rfl, rfl, rfl, ?_⟩
  rw [List.perm_iff_count]
  intro a
  have hinsert := count_queued_insert hq { q with line := q.line ++ [task] } p.woken a
  simp only [List.nil_append] at hinsert ⊢
  omega

/-- A task that looks again gets the channel that leaves the pool. -/
theorem lookAgain_gains (w : Wake) :
    (p.lookAgain w).2.Gains p ((p.lookAgain w).1.toList.map fun c => (w.service, c)) := by
  have hwait : ∀ p', p.await w.service w.task = .ok p' → p'.Gains p [] := fun _ => await_gains
  unfold lookAgain
  split
  · next c p' htake => exact take_gains htake
  · split
    · next p' hawait => exact hwait p' hawait
    · exact .refl p

/-- Rousing whoever waits takes a channel, or nothing. -/
theorem rouse_gains (w : Wake) :
    (p.rouse w).2.Gains p ((p.rouse w).1.toList.map fun c => (w.service, c)) := by
  have h := lookAgain_gains (p := { p with woken := p.woken.erase w }) w
  exact ⟨h.services, h.keys, h.opened, h.dedicated, h.leaseTime, h.queued⟩

/-- What users have when one of them is given other channels. -/
theorem count_leased_insert {u : Identity} {t : Tenancy} (h : p.dedicated.find? u = some t)
    (t' : Tenancy) (a : String × Channel) :
    { p with dedicated := p.dedicated.insert u t' }.leased.count a + t.channels.count a =
      p.leased.count a + t'.channels.count a := by
  obtain ⟨before, after, hentries, hinsert⟩ := Table.exists_entries_insert h
  simp only [leased, hentries, hinsert, List.flatMap_append, List.flatMap_cons, List.count_append]
  omega

/-- What users have when a new one comes. -/
theorem leased_insert_of_none {u : Identity} (h : p.dedicated.find? u = none) (t : Tenancy) :
    { p with dedicated := p.dedicated.insert u t }.leased = p.leased ++ t.channels := by
  simp [leased, Table.entries_insert_of_none h]

/-- Using a channel moves no channel. -/
theorem channels_insert {t : Tenancy} {l : Lease} (h : t.leases.find? s = some l) (now : Float) :
    { t with leases := t.leases.insert s { l with stamp := now } }.channels = t.channels := by
  obtain ⟨before, after, hentries, hinsert⟩ := Table.exists_entries_insert h
  simp [Tenancy.channels, hentries, hinsert]

/-- Elements that contribute nothing may be filtered out. -/
theorem flatMap_filter_of_nil {α β : Type} {f : α → List β} {keep : α → Bool}
    (h : ∀ a, keep a = false → f a = []) (l : List α) :
    (l.filter keep).flatMap f = l.flatMap f := by
  induction l with
  | nil => rfl
  | cons a l ih =>
      by_cases ha : keep a = true
      · simp [ha, ih]
      · simp [ha, ih, h a (by simpa using ha)]

/-- The channels of a user are those of the leases that have run out and of those that have not. -/
theorem channels_perm (p : Pool) (now : Float) (t : Tenancy) :
    ((t.leases.entries.filter fun e => p.expired now e.2).map (fun e => (e.1, e.2.channel)) ++
      (p.unexpired now t).channels).Perm t.channels := by
  have hsplit := List.filter_append_perm (fun e => p.expired now e.2) t.leases.entries
  simpa [Tenancy.channels, unexpired, Table.filter] using hsplit.map fun e => (e.1, e.2.channel)

/-- What users have is what a clean-up takes from them and what it leaves them. -/
theorem leased_perm (p : Pool) (now : Float) :
    p.leased.Perm
      (p.expiredChannels now ++ { p with dedicated := p.remainingLeases now }.leased) := by
  have hleft : { p with dedicated := p.remainingLeases now }.leased =
      p.dedicated.entries.flatMap fun e => (p.unexpired now e.2).channels := by
    simp only [leased, remainingLeases, Table.filter, Table.mapValues]
    rw [flatMap_filter_of_nil, List.flatMap_map]
    intro e he
    simpa [Tenancy.channels] using he
  rw [hleft, expiredChannels_eq]
  refine List.Perm.symm (.trans (List.flatMap_append_perm _ _ _) ?_)
  exact List.Perm.flatMap_left _ fun e _ => channels_perm p now e.2

/-- A channel belongs to one of the services. -/
theorem mem_services_of_mem (h : (s, c) ∈ p.allChannels) : s ∈ p.services.keys := by
  obtain ⟨⟨⟨s', address⟩, serial⟩, hmem, heq⟩ := List.mem_map.mp h
  obtain ⟨rfl, -⟩ := Prod.mk.inj heq
  obtain ⟨e, he, haddress⟩ := List.mem_flatMap.mp (List.fst_mem_of_mem_zipIdx hmem)
  obtain ⟨port, -, heq'⟩ := List.mem_map.mp haddress
  obtain ⟨rfl, -⟩ := Prod.mk.inj heq'
  exact List.mem_map_of_mem he

/-- All channels are those that the services offer. -/
theorem allChannels_congr (h : p'.services = p.services) : p'.allChannels = p.allChannels := by
  simp [allChannels, allAddresses, h]

/-- No two channels are the same. -/
theorem nodup_allChannels (p : Pool) : p.allChannels.Nodup := by
  have hserials : (p.allChannels.map fun e => e.2.serial).Nodup := by
    have hrange : (p.allChannels.map fun e => e.2.serial) = p.allAddresses.zipIdx.map Prod.snd := by
      simp [allChannels, Function.comp_def]
    rw [hrange, List.zipIdx_map_snd]
    exact List.nodup_range'
  exact List.Nodup.of_map _ hserials

/-- What a claim that succeeds comes to: the user has the channel already; or the user is new, and
there is no channel; or there is one, and the user gets it without being told. -/
theorem claim_cases {user : User} {now : Float} {oc : Option Channel}
    (h : p.claim s user now = .ok (oc, p')) :
    (∃ t l, p.dedicated.find? user.identity = some t ∧ t.leases.find? s = some l ∧
      oc = some l.channel ∧
      p' = { p with
        dedicated := p.dedicated.insert user.identity
          { t with leases := t.leases.insert s { l with stamp := now } } }) ∨
    (p.dedicated.find? user.identity = none ∧ oc = none ∧ p.take s = .ok (none, p')) ∨
    ∃ c q, p.dedicated.find? user.identity = none ∧ oc = none ∧ p.take s = .ok (some c, q) ∧
      p' = { q with
        dedicated := q.dedicated.insert user.identity
          { name := user.name
            leases := Table.empty.insert s { channel := c, stamp := now } } } := by
  cases hfind : p.dedicated.find? user.identity with
  | none =>
      simp only [claim, hfind, bind, Except.bind, pure, Except.pure] at h
      cases htake : p.take s with
      | error f => simp [htake] at h
      | ok got =>
          obtain ⟨c | c, q⟩ := got
          · simp only [htake] at h
            cases h
            exact .inr (.inl ⟨rfl, rfl, rfl⟩)
          · simp only [htake] at h
            cases h
            exact .inr (.inr ⟨c, q, rfl, rfl, rfl, rfl⟩)
  | some t =>
      simp only [claim, hfind] at h
      cases hlease : t.leases.find? s with
      | none => simp [hlease] at h
      | some l =>
          simp only [hlease] at h
          cases h
          exact .inl ⟨t, l, rfl, hlease, rfl, rfl⟩

end

/-- The books of a pool are in order: every service has a queue, every user in the books has a
channel, and the channels in queues, with users and in the hands of tasks are those that were
opened. -/
structure Accounts (p : Pool) (held : List (String × Channel)) : Prop where
  served : ∀ s ∈ p.services.keys, s ∈ p.queues.keys
  occupied : ∀ e ∈ p.dedicated.entries, e.2.leases.entries ≠ []
  complete : (p.queued ++ p.leased ++ held).Perm (if p.opened then p.allChannels else [])

namespace Accounts

variable {p p' : Pool} {s : String} {c : Channel} {held held' cs : List (String × Channel)}

/-- Where the channels are accounted for, none is in two places. -/
theorem nodup (h : p.Accounts held) : (p.queued ++ p.leased ++ held).Nodup := by
  rw [h.complete.nodup_iff]
  split
  · exact nodup_allChannels p
  · exact List.nodup_nil

/-- The service of a channel that is somewhere has a queue. -/
theorem served_of_mem (h : p.Accounts held) (hmem : (s, c) ∈ p.queued ++ p.leased ++ held) :
    s ∈ p.queues.keys := by
  have hall := h.complete.mem_iff.mp hmem
  split at hall
  · exact h.served s (mem_services_of_mem hall)
  · simp at hall

/-- The books stay in order when channels move from one place to another. -/
theorem moved (h : p.Accounts held) (hservices : p'.services = p.services)
    (hkeys : p'.queues.keys = p.queues.keys) (hopened : p'.opened = p.opened)
    (hoccupied : ∀ e ∈ p'.dedicated.entries, e.2.leases.entries ≠ [])
    (hmoved : ∀ a, p'.queued.count a + p'.leased.count a + held'.count a =
      p.queued.count a + p.leased.count a + held.count a) : p'.Accounts held' := by
  refine ⟨by rw [hservices, hkeys]; exact h.served, hoccupied, ?_⟩
  rw [allChannels_congr hservices, hopened]
  refine .trans ?_ h.complete
  rw [List.perm_iff_count]
  intro a
  simp only [List.count_append, hmoved a]

/-- Channels that leave the queues come into the hands of tasks. -/
theorem lose (h : p.Accounts held) (hgains : p'.Gains p cs) : p'.Accounts (cs ++ held) := by
  refine h.moved hgains.services.symm hgains.keys.symm hgains.opened.symm ?_ fun a => ?_
  · rw [← hgains.dedicated]
    exact h.occupied
  · have hqueued := hgains.queued.count_eq a
    simp only [leased, hgains.dedicated, List.count_append] at hqueued ⊢
    omega

/-- Channels that go into queues come from the hands of tasks. -/
theorem gain (h : p.Accounts held) (hgains : p.Gains p' cs) (hheld : held.Perm (cs ++ held')) :
    p'.Accounts held' := by
  refine h.moved hgains.services hgains.keys hgains.opened ?_ fun a => ?_
  · rw [hgains.dedicated]
    exact h.occupied
  · have hqueued := hgains.queued.count_eq a
    have hcount := hheld.count_eq a
    simp only [leased, hgains.dedicated, List.count_append] at hqueued hcount ⊢
    omega

/-- It does not matter in which order the tasks are listed. -/
theorem perm (h : p.Accounts held) (hheld : held.Perm held') : p.Accounts held' :=
  h.gain (.refl p) hheld

/-- Opening the channels. -/
theorem openChannels (h : p.Accounts held) :
    ∃ p', p.openChannels = .ok p' ∧ p'.Accounts held ∧ p.Continues p' ∧
      p'.dedicated = p.dedicated := by
  cases hopened : p.opened with
  | true => exact ⟨p, by simp [Pool.openChannels, hopened], h, .refl p, rfl⟩
  | false =>
      have hserved : ∀ e ∈ p.allChannels, e.1 ∈ p.queues.keys := fun e he =>
        h.served e.1 (mem_services_of_mem he)
      obtain ⟨p', hput, hgains⟩ := exists_putAll hserved
      refine ⟨{ p' with opened := true }, ?_, ⟨?_, ?_, ?_⟩,
        ⟨hgains.services, hgains.leaseTime, fun _ => rfl⟩, hgains.dedicated⟩
      · simp [Pool.openChannels, hopened, hput, bind, Except.bind, pure, Except.pure]
      · rw [hgains.services, hgains.keys]
        exact h.served
      · rw [hgains.dedicated]
        exact h.occupied
      · have hnone := h.complete
        simp only [hopened, Bool.false_eq_true, if_false, List.perm_nil, List.append_eq_nil_iff]
          at hnone
        obtain ⟨⟨hqueued, hleased⟩, rfl⟩ := hnone
        have hleased' : p'.leased = [] := by
          rw [leased, hgains.dedicated]
          exact hleased
        have hperm := hgains.queued
        rw [hqueued, List.append_nil] at hperm
        change (p'.queued ++ p'.leased ++ []).Perm p'.allChannels
        rwa [hleased', allChannels_congr hgains.services, List.append_nil, List.append_nil]

/-- A clean-up moves the channels whose leases have run out from users to queues. -/
theorem cleanUp (h : p.Accounts held) (now : Float) :
    ∃ p', p.cleanUp now = .ok p' ∧ p'.Accounts held ∧ p.Continues p' ∧
      (p'.dedicated = p.dedicated ∨ p'.dedicated = p.remainingLeases now) := by
  by_cases hdue : now - p.lastCleanUp > p.leaseTime
  · have hleased := leased_perm p now
    have hserved : ∀ e ∈ p.expiredChannels now, e.1 ∈ p.queues.keys := by
      intro e he
      have hmem : e ∈ p.leased := hleased.mem_iff.mpr (List.mem_append_left _ he)
      exact h.served_of_mem (List.mem_append_left _ (List.mem_append_right _ hmem))
    obtain ⟨q, hput, hgains⟩ := exists_putAll (p := { p with lastCleanUp := now }) hserved
    refine ⟨{ q with dedicated := p.remainingLeases now }, ?_,
      h.moved hgains.services hgains.keys hgains.opened ?_ fun a => ?_,
      ⟨hgains.services, hgains.leaseTime, hgains.opened.trans⟩, .inr rfl⟩
    · simp [cleanUp_eq now h.occupied, hdue, hput, bind, Except.bind, pure, Except.pure]
    · intro e he
      simpa using (List.mem_filter.mp he).2
    · have hqueued : q.queued.count a = (p.expiredChannels now ++ p.queued).count a :=
        hgains.queued.count_eq a
      have hcount := hleased.count_eq a
      change q.queued.count a +
        { p with dedicated := p.remainingLeases now }.leased.count a + held.count a = _
      simp only [List.count_append] at hqueued hcount ⊢
      omega
  · exact ⟨p, by simp [Pool.cleanUp, hdue], h, .refl p, .inl rfl⟩

/-- What comes before an errand never fails. -/
theorem prepare (h : p.Accounts held) (now : Float) (e : Errand) :
    ∃ p', e.prepare p now = .ok p' ∧ p'.Accounts held ∧ p.Continues p' ∧
      (p'.dedicated = p.dedicated ∨ p'.dedicated = p.remainingLeases now) := by
  obtain ⟨q, hopen, hq, hcontinues, hdedicated⟩ := h.openChannels
  have hboth : ∃ p', (do let p ← p.openChannels; p.cleanUp now) = .ok p' ∧ p'.Accounts held ∧
      p.Continues p' ∧ (p'.dedicated = p.dedicated ∨ p'.dedicated = p.remainingLeases now) := by
    obtain ⟨p', hclean, hp', hcontinues', hdedicated'⟩ := hq.cleanUp now
    have hleases : q.remainingLeases now = p.remainingLeases now := by
      simp [remainingLeases, hdedicated, unexpired, expired, hcontinues.leaseTime]
    refine ⟨p', ?_, hp', hcontinues.trans hcontinues', ?_⟩
    · simp [hopen, hclean, bind, Except.bind]
    · rwa [hdedicated, hleases] at hdedicated'
  cases e with
  | openChannels => exact ⟨q, hopen, hq, hcontinues, .inl hdedicated⟩
  | cleanUp => exact h.cleanUp now
  | get s => exact hboth
  | claim s user => exact hboth
  | release s c => exact ⟨p, rfl, h, .refl p, .inl rfl⟩

/-- A table in which everybody has a lease keeps that when somebody with a lease is entered. -/
theorem occupied_insert {table : Table Identity Tenancy}
    (h : ∀ e ∈ table.entries, e.2.leases.entries ≠ []) (u : Identity) {t : Tenancy}
    (ht : t.leases.entries ≠ []) : ∀ e ∈ (table.insert u t).entries, e.2.leases.entries ≠ [] := by
  intro e he
  rcases Table.mem_entries_insert he with rfl | he
  · exact ht
  · exact h e he

/-- Dedicating a channel to a user moves it from a queue to the user, and using it again moves
nothing. -/
theorem claim (h : p.Accounts held) {user : User} {now : Float} {oc : Option Channel}
    (hclaim : p.claim s user now = .ok (oc, p')) :
    p'.Accounts held ∧ p.Continues p' := by
  rcases claim_cases hclaim with ⟨t, l, hfind, hlease, -, rfl⟩ | ⟨-, -, htake⟩ |
    ⟨c, q, hnew, -, htake, rfl⟩
  · refine ⟨h.moved rfl rfl rfl (occupied_insert h.occupied _ ?_) fun a => ?_, rfl, rfl, id⟩
    · exact Table.entries_insert_ne_nil _ _ _
    · have hcount := count_leased_insert hfind
        { t with leases := t.leases.insert s { l with stamp := now } } a
      rw [channels_insert hlease] at hcount
      change p.queued.count a + _ + _ = _
      omega
  · have hgains := take_gains htake
    exact ⟨h.lose hgains, hgains.continues_back⟩
  · have hgains := take_gains htake
    have hq := h.lose hgains
    rw [hgains.dedicated] at hnew
    refine ⟨hq.moved rfl rfl rfl (occupied_insert hq.occupied _ ?_) fun a => ?_,
      hgains.services.symm, hgains.leaseTime.symm, hgains.opened.symm.trans⟩
    · exact Table.entries_insert_ne_nil _ _ _
    · change q.queued.count a + _ + _ = _
      rw [leased_insert_of_none hnew]
      have hchannels : Tenancy.channels ⟨user.name, Table.empty.insert s ⟨c, now⟩⟩ = [(s, c)] :=
        rfl
      rw [hchannels, List.count_append]
      simp only [Option.toList, List.map_cons, List.map_nil, List.count_append]
      omega

/-- A task that looks again has in its hands what it got. -/
theorem rouse (h : p.Accounts held) (w : Wake) :
    (p.rouse w).2.Accounts ((p.rouse w).1.toList.map (fun c => (w.service, c)) ++ held) :=
  h.lose (rouse_gains w)

end Accounts

end Pool

/-- What is in the hands of tasks after an errand with an outcome: what they had before, with what
the errand got and without what it gave back. -/
def Errand.holding (held : List (String × Channel)) :
    Errand → Option Outcome → List (String × Channel)
  | .get s, some (.ok (some c)) => (s, c) :: held
  | .release s c, some (.ok _) => held.erase (s, c)
  | _, _ => held

/-- An errand that has been prepared. -/
theorem Errand.perform_of_prepare {p q : Pool} {now : Float} {e : Errand}
    (h : e.prepare p now = .ok q) (task : Nat) :
    e.perform p task now =
      match e.act q task now with
      | .error f => (some (.error f), q)
      | .ok (some c, q) => (some (.ok c), q)
      | .ok (none, q) => (none, q) := by
  unfold perform
  split
  · next f hfault =>
      rw [h] at hfault
      cases hfault
  · next q' hready =>
      rw [h] at hready
      cases hready
      rfl

/-- What an errand that succeeds or has to wait comes to. -/
theorem Errand.act_cases {p p' : Pool} {task : Nat} {now : Float} {e : Errand}
    {oc : Option (Option Channel)} (h : e.act p task now = .ok (oc, p')) :
    ((e = .openChannels ∨ e = .cleanUp) ∧ p' = p) ∨
    (∃ s c, e = .release s c ∧ oc = some none ∧ p.put s c = .ok p') ∨
    (∃ s name user c, e = .claim s name ∧ oc = some c ∧ User.ofDocument task name = .ok user ∧
      p.claim s user now = .ok (c, p')) ∨
    (∃ s c, e = .get s ∧ oc = some (some c) ∧ p.take s = .ok (some c, p')) ∨
    ∃ s q, e = .get s ∧ oc = none ∧ p.take s = .ok (none, q) ∧ q.await s task = .ok p' := by
  cases e with
  | openChannels =>
      cases h
      exact .inl ⟨.inl rfl, rfl⟩
  | cleanUp =>
      cases h
      exact .inl ⟨.inr rfl, rfl⟩
  | release s c =>
      simp only [act, bind, Except.bind, pure, Except.pure] at h
      cases hput : p.put s c with
      | error f => simp [hput] at h
      | ok q =>
          simp only [hput] at h
          cases h
          exact .inr (.inl ⟨s, c, rfl, rfl, hput⟩)
  | claim s name =>
      simp only [act, bind, Except.bind, pure, Except.pure] at h
      cases huser : User.ofDocument task name with
      | error f => simp [huser] at h
      | ok user =>
          simp only [huser] at h
          cases hclaim : p.claim s user now with
          | error f => simp [hclaim] at h
          | ok got =>
              simp only [hclaim] at h
              cases h
              exact .inr (.inr (.inl ⟨s, name, user, got.1, rfl, rfl, huser, hclaim⟩))
  | get s =>
      simp only [act, bind, Except.bind, pure, Except.pure] at h
      cases htake : p.take s with
      | error f => simp [htake] at h
      | ok got =>
          obtain ⟨c | c, q⟩ := got
          · simp only [htake] at h
            cases hawait : q.await s task with
            | error f => simp [hawait] at h
            | ok q' =>
                simp only [hawait] at h
                cases h
                exact .inr (.inr (.inr (.inr ⟨s, q, rfl, rfl, htake, hawait⟩)))
          · simp only [htake] at h
            cases h
            exact .inr (.inr (.inr (.inl ⟨s, c, rfl, rfl, htake⟩)))

/-- An errand that fails neither gets nor gives back anything. -/
theorem Errand.holding_error (held : List (String × Channel)) (e : Errand) (f : Fault) :
    e.holding held (some (.error f)) = held := by
  cases e <;> rfl

/-- **Every errand keeps the books in order.**  Only a channel in the hands of a task is given
back. -/
theorem Pool.Accounts.perform {p : Pool} {held : List (String × Channel)} (h : p.Accounts held)
    (e : Errand) (task : Nat) (now : Float) (hown : ∀ s c, e = .release s c → (s, c) ∈ held) :
    (e.perform p task now).2.Accounts (e.holding held (e.perform p task now).1) ∧
      p.Continues (e.perform p task now).2 := by
  obtain ⟨q, hprepare, hq, hcontinues, -⟩ := h.prepare now e
  rw [Errand.perform_of_prepare hprepare]
  cases hact : e.act q task now with
  | error f =>
      simp only [Errand.holding_error]
      exact ⟨hq, hcontinues⟩
  | ok got =>
      obtain ⟨oc, q'⟩ := got
      rcases Errand.act_cases hact with ⟨rfl | rfl, rfl⟩ | ⟨s, c, rfl, rfl, hput⟩ |
        ⟨s, name, user, c, rfl, rfl, -, hclaim⟩ | ⟨s, c, rfl, rfl, htake⟩ |
        ⟨s, q₁, rfl, rfl, htake, hawait⟩
      · cases oc <;> exact ⟨hq, hcontinues⟩
      · cases oc <;> exact ⟨hq, hcontinues⟩
      · have hgains := put_gains hput
        have hheld := List.perm_cons_erase (hown s c rfl)
        exact ⟨hq.gain hgains hheld, hcontinues.trans hgains.continues⟩
      · obtain ⟨hp', hcontinues'⟩ := hq.claim hclaim
        exact ⟨hp', hcontinues.trans hcontinues'⟩
      · have hgains := take_gains htake
        exact ⟨hq.lose hgains, hcontinues.trans hgains.continues_back⟩
      · have hgains := take_gains htake
        have hwaits := await_gains hawait
        exact ⟨(hq.lose hgains).lose hwaits,
          (hcontinues.trans hgains.continues_back).trans hwaits.continues_back⟩

end DronePilot.Service
