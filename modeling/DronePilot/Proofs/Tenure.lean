import DronePilot.Proofs.Conservation

/-!
# The channel of a user

A user who asks for a dedicated channel to a service has a lease of it, which every request renews
and a clean-up ends when it has run out.  Nothing else touches it: not the requests of others, not
what the same user asks of other services, not the tasks that wait.

A first request gets its channel into the books but is not told of it, and a user who has a channel
to one service is refused one to another.  In all other cases the answer is as it should be.

* `Pool.Accounts.perform_leaseOf`, `Pool.Accounts.perform_asked` — what an errand does to a lease
  that has not run out.
* `Office.Attended.lets` — what a run does to it, if the user asks often enough.
* `Pool.Accounts.dedication` — the three things that a dedicated request can come to.
* `dedicated_request_answered_iff` — which dedicated requests are answered as they should be.
-/

namespace DronePilot.Service

namespace Pool

/-- The lease of a user for a service. -/
def leaseOf (p : Pool) (u : Identity) (s : String) : Option Lease :=
  (p.dedicated.find? u).bind fun t => t.leases.find? s

/-- The channels in the queue of a service. -/
def free (p : Pool) (s : String) : List Channel :=
  ((p.queues.find? s).map Queue.channels).getD []

section

variable {p p' q : Pool} {u : Identity} {s s' : String} {l : Lease} {now : Float} {user : User}
  {held : List (String × Channel)} {oc : Option Channel}

theorem leaseOf_congr (h : p'.dedicated = p.dedicated) (u : Identity) (s : String) :
    p'.leaseOf u s = p.leaseOf u s := by
  rw [leaseOf, h, leaseOf]

theorem leaseOf_of_find? {t : Tenancy} (h : p.dedicated.find? u = some t) (s : String) :
    p.leaseOf u s = t.leases.find? s := by
  rw [leaseOf, h, Option.bind_some]

theorem leaseOf_of_none (h : p.dedicated.find? u = none) (s : String) : p.leaseOf u s = none := by
  rw [leaseOf, h, Option.bind_none]

/-- The leases after the books of one user have changed. -/
theorem leaseOf_insert {v : Identity} {t : Tenancy} (h : p'.dedicated = p.dedicated.insert v t)
    (u : Identity) (s : String) :
    p'.leaseOf u s = if u = v then t.leases.find? s else p.leaseOf u s := by
  by_cases hu : u = v
  · subst hu
    rw [leaseOf, h, Table.find?_insert_self, Option.bind_some, if_pos rfl]
  · rw [if_neg hu, leaseOf, h, Table.find?_insert_of_ne _ _ hu, leaseOf]

/-- A clean-up leaves the leases that have not run out. -/
theorem leaseOf_remaining (h : p'.dedicated = p.remainingLeases now) (u : Identity) (s : String) :
    p'.leaseOf u s = (p.leaseOf u s).filter fun l => !p.expired now l := by
  have hleft : ∀ t, (p.unexpired now t).leases.find? s =
      (t.leases.find? s).filter fun l => !p.expired now l :=
    fun t => Table.find?_filter t.leases _ s
  rw [leaseOf, h, remainingLeases, Table.find?_filter, Table.find?_mapValues, leaseOf]
  cases p.dedicated.find? u with
  | none => rfl
  | some t =>
      rw [Option.map_some, Option.bind_some, ← hleft t]
      -- A user who has no lease left has none for this service either.
      by_cases hempty : (p.unexpired now t).leases.entries = []
      · simp [Option.filter_some, hempty, Table.find?]
      · simp [Option.filter_some, hempty]

/-- What comes before an errand ends no lease that has not run out. -/
theorem leaseOf_prepared (h : q.dedicated = p.dedicated ∨ q.dedicated = p.remainingLeases now)
    (hl : p.leaseOf u s = some l) (hlive : p.expired now l = false) : q.leaseOf u s = some l := by
  rcases h with h | h
  · rw [leaseOf_congr h, hl]
  · rw [leaseOf_remaining h, hl]
    simp [hlive]

/-- A user is in the books if there is a lease. -/
theorem Accounts.find?_eq_none_iff (h : p.Accounts held) :
    p.dedicated.find? u = none ↔ ∀ s, p.leaseOf u s = none := by
  refine ⟨leaseOf_of_none, fun hnone => ?_⟩
  cases hfind : p.dedicated.find? u with
  | none => rfl
  | some t =>
      obtain ⟨⟨s, l⟩, hmem⟩ :=
        List.exists_mem_of_ne_nil _ (h.occupied _ (Table.find?_eq_some_iff.mp hfind))
      have hsome := leaseOf_of_find? hfind s
      rw [hnone s, Table.find?_eq_some_iff.mpr hmem] at hsome
      cases hsome

/-- A request leaves alone what others have, and what the user has of other services. -/
theorem leaseOf_claim_of_ne (h : p.claim s user now = .ok (oc, p'))
    (hne : ¬(user.identity = u ∧ s = s')) : p'.leaseOf u s' = p.leaseOf u s' := by
  rcases claim_cases h with ⟨t, l, hfind, -, -, rfl⟩ | ⟨-, -, htake⟩ | ⟨c, q, hnew, -, htake, rfl⟩
  · rw [leaseOf_insert (p := p) rfl]
    split
    · next hu =>
        subst hu
        have hs : s' ≠ s := fun hs => hne ⟨rfl, hs.symm⟩
        rw [Table.find?_insert_of_ne _ _ hs, leaseOf_of_find? hfind]
    · rfl
  · exact leaseOf_congr (take_gains htake).dedicated.symm u s'
  · rw [leaseOf_insert (p := q) rfl]
    split
    · next hu =>
        subst hu
        have hs : s' ≠ s := fun hs => hne ⟨rfl, hs.symm⟩
        rw [Table.find?_insert_of_ne _ _ hs, leaseOf_of_none hnew]
        rfl
    · exact leaseOf_congr (take_gains htake).dedicated.symm u s'

/-- A request for a channel that the user has renews the lease. -/
theorem exists_claim_of_lease (hl : p.leaseOf user.identity s = some l) (now : Float) :
    ∃ p', p.claim s user now = .ok (some l.channel, p') ∧
      p'.leaseOf user.identity s = some { l with stamp := now } := by
  obtain ⟨t, hfind, hlease⟩ := Option.bind_eq_some_iff.mp hl
  refine ⟨_, by simp only [claim, hfind, hlease]; rfl, ?_⟩
  rw [leaseOf_insert (p := p) rfl, if_pos rfl, Table.find?_insert_self]

/-- A user who has channels to other services only is refused one. -/
theorem claim_of_others {t : Tenancy} (hfind : p.dedicated.find? user.identity = some t)
    (hl : p.leaseOf user.identity s = none) (now : Float) :
    p.claim s user now = .error .noSuchKey := by
  rw [leaseOf_of_find? hfind] at hl
  simp [claim, hfind, hl]

/-- A new user gets the first free channel, if there is one, and is told of none. -/
theorem exists_claim_of_none (hnew : p.dedicated.find? user.identity = none)
    (hserved : s ∈ p.queues.keys) (now : Float) :
    ∃ p', p.claim s user now = .ok (none, p') ∧
      p'.leaseOf user.identity s =
        (p.free s).head?.map fun c => { channel := c, stamp := now } := by
  obtain ⟨queue, hqueue⟩ := exists_queue hserved
  have hfree : p.free s = queue.channels := by simp [free, hqueue]
  rw [hfree]
  cases hchannels : queue.channels with
  | nil =>
      refine ⟨p, ?_, leaseOf_of_none hnew s⟩
      simp [claim, hnew, take, queue_of_find? hqueue, hchannels, bind, Except.bind, pure,
        Except.pure]
  | cons c rest =>
      refine ⟨_, by
        simp only [claim, hnew, take, queue_of_find? hqueue, hchannels, bind, Except.bind, pure,
          Except.pure]
        rfl, ?_⟩
      rw [leaseOf_insert (p := p) rfl, if_pos rfl, Table.find?_insert_self]
      rfl

end

end Pool

/-- The errand is the request of a user for a dedicated channel to a service. -/
def Errand.AsksFor (e : Errand) (task : Nat) (u : Identity) (s : String) : Prop :=
  ∃ name user, e = .claim s name ∧ User.ofDocument task name = .ok user ∧ user.identity = u

/-- Whatever else is asked leaves a lease alone. -/
theorem Errand.act_leaseOf {p p' : Pool} {e : Errand} {task : Nat} {now : Float} {u : Identity}
    {s : String} {oc : Option (Option Channel)} (hother : ¬e.AsksFor task u s)
    (hact : e.act p task now = .ok (oc, p')) : p'.leaseOf u s = p.leaseOf u s := by
  rcases act_cases hact with ⟨-, rfl⟩ | ⟨service, c, -, -, hput⟩ |
    ⟨service, name, user, c, rfl, -, huser, hclaim⟩ | ⟨service, c, -, -, htake⟩ |
    ⟨service, q, -, -, htake, hawait⟩
  · rfl
  · exact Pool.leaseOf_congr (Pool.put_gains hput).dedicated u s
  · refine Pool.leaseOf_claim_of_ne hclaim fun hsame => hother ?_
    exact ⟨name, user, by rw [hsame.2], huser, hsame.1⟩
  · exact Pool.leaseOf_congr (Pool.take_gains htake).dedicated.symm u s
  · have htaken := (Pool.take_gains htake).dedicated
    have hwaits := (Pool.await_gains hawait).dedicated
    exact Pool.leaseOf_congr (hwaits.symm.trans htaken.symm) u s

/-- A request for a dedicated channel that has been prepared. -/
theorem Errand.perform_claim {p q : Pool} {s : String} {name : Document} {task : Nat} {now : Float}
    {user : User} (hprepare : (Errand.claim s name).prepare p now = .ok q)
    (huser : User.ofDocument task name = .ok user) :
    (Errand.claim s name).perform p task now =
      match q.claim s user now with
      | .error f => (some (.error f), q)
      | .ok (c, q) => (some (.ok c), q) := by
  rw [perform_of_prepare hprepare]
  simp only [act, huser, bind, Except.bind, pure, Except.pure]
  cases q.claim s user now <;> rfl

namespace Pool.Accounts

variable {p : Pool} {held : List (String × Channel)} {u : Identity} {s : String} {l : Lease}
  {now : Float} {e : Errand} {task : Nat}

/-- **What others ask** leaves a lease alone that has not run out. -/
theorem perform_leaseOf (h : p.Accounts held) (hl : p.leaseOf u s = some l)
    (hlive : p.expired now l = false) (hother : ¬e.AsksFor task u s) :
    (e.perform p task now).2.leaseOf u s = some l := by
  obtain ⟨q, hprepare, -, -, hdedicated⟩ := h.prepare now e
  have hq := leaseOf_prepared hdedicated hl hlive
  rw [Errand.perform_of_prepare hprepare]
  cases hact : e.act q task now with
  | error f => exact hq
  | ok got =>
      obtain ⟨c | c, q'⟩ := got
      · exact (Errand.act_leaseOf hother hact).trans hq
      · exact (Errand.act_leaseOf hother hact).trans hq

/-- **What the user asks** renews a lease that has not run out, and is answered. -/
theorem perform_asked (h : p.Accounts held) (hl : p.leaseOf u s = some l)
    (hlive : p.expired now l = false) (hasks : e.AsksFor task u s) :
    (e.perform p task now).1 = some (.ok (some l.channel)) ∧
      (e.perform p task now).2.leaseOf u s = some { l with stamp := now } := by
  obtain ⟨name, user, rfl, huser, rfl⟩ := hasks
  obtain ⟨q, hprepare, -, -, hdedicated⟩ := h.prepare now (.claim s name)
  obtain ⟨p', hclaim, hlease⟩ := exists_claim_of_lease (leaseOf_prepared hdedicated hl hlive) now
  rw [Errand.perform_claim hprepare huser, hclaim]
  exact ⟨rfl, hlease⟩

end Pool.Accounts

/-- How an office goes on while a user asks for a channel again and again: nothing happens when the
last request is longer ago than a lease lasts.  On a clock that never goes back this means that no
two requests in a row are further apart.  The numbers are the times of the last request. -/
inductive Office.Attended (u : Identity) (s : String) (since : Float) (o : Office) :
    Float → Office → Prop
  | refl : Attended u s since o since o
  | other {last now : Float} {o' o'' : Office} {e : Errand} (before : Attended u s since o last o')
      (move : Moves (some (e, now)) o' o'') (soon : ¬now - last > leaseTime)
      (others : ¬e.AsksFor o'.desk.tasks u s) : Attended u s since o last o''
  | ask {last now : Float} {o' o'' : Office} {e : Errand} (before : Attended u s since o last o')
      (move : Moves (some (e, now)) o' o'') (soon : ¬now - last > leaseTime)
      (own : e.AsksFor o'.desk.tasks u s) : Attended u s since o now o''
  | resume {last : Float} {o' o'' : Office} (before : Attended u s since o last o')
      (move : Moves none o' o'') : Attended u s since o last o''

/-- The books of an office with a lease of some user for some service. -/
structure Office.Lets (o : Office) (u : Identity) (s : String) (l : Lease) : Prop where
  books : o.desk.pool.Accounts o.held
  leaseTime : o.desk.pool.leaseTime = Service.leaseTime
  lease : o.desk.pool.leaseOf u s = some l

/-- A lease that was asked for recently has not run out. -/
theorem Office.Lets.live {o : Office} {u : Identity} {s : String} {l : Lease} (h : o.Lets u s l)
    {now : Float} (hsoon : ¬now - l.stamp > Service.leaseTime) :
    o.desk.pool.expired now l = false := by
  simpa [Pool.expired, h.leaseTime] using hsoon

/-- The books stay in order whatever happens, so that only the lease is left to show. -/
theorem Office.Lets.moved {o o' : Office} {u : Identity} {s : String} {l l' : Lease}
    {what : Option (Errand × Float)} (h : o.Lets u s l) (move : Moves what o o')
    (hl : o'.desk.pool.leaseOf u s = some l') : o'.Lets u s l' := by
  obtain ⟨hbooks, hcontinues⟩ := move.books h.books
  exact ⟨hbooks, hcontinues.leaseTime.trans h.leaseTime, hl⟩

/-- **A user who asks often enough keeps the channel**, whatever happens in between. -/
theorem Office.Attended.lets {u : Identity} {s : String} {since last : Float} {o o' : Office}
    {c : Channel} (h : Attended u s since o last o') (hlets : o.Lets u s ⟨c, since⟩) :
    o'.Lets u s ⟨c, last⟩ := by
  induction h with
  | refl => exact hlets
  | other _ move soon others ih =>
      refine ih.moved move ?_
      cases move with
      | start _ e now own =>
          rw [Office.start, Desk.pool_start]
          exact ih.books.perform_leaseOf ih.lease (ih.live soon) others
  | ask _ move soon own ih =>
      refine ih.moved move ?_
      cases move with
      | start _ e now _ =>
          rw [Office.start, Desk.pool_start]
          exact (ih.books.perform_asked ih.lease (ih.live soon) own).2
  | resume _ move ih =>
      refine ih.moved move ?_
      cases move with
      | resume _ w woken =>
          rw [Office.resume, Desk.pool_resume,
            Pool.leaseOf_congr (Pool.rouse_gains w).dedicated.symm]
          exact ih.lease

/-- A service that was added is one of the services. -/
theorem Pool.mem_keys_offering {s : String} {services : List (String × String × String)}
    (h : s ∈ services.map Prod.fst) (now : Float) :
    s ∈ (Pool.offering now services).services.keys := by
  have hfold : ∀ (p : Pool), s ∈ p.services.keys ∨ s ∈ services.map Prod.fst →
      s ∈ (services.foldl (fun p e => p.add e.1 e.2.1 e.2.2) p).services.keys := by
    clear h
    induction services with
    | nil => simp
    | cons e services ih =>
        intro p hs
        refine ih (p.add e.1 e.2.1 e.2.2) ?_
        simp only [Pool.add, Table.keys_insert]
        rcases hs with hs | hs
        · left
          split <;> simp [hs]
        · rcases List.mem_cons.mp hs with rfl | hs
          · left
            split <;> simp_all
          · exact .inr hs
  exact hfold _ (.inr h)

/-- What a dedicated request comes to, where `q` is the pool once the leases that have run out are
gone, and `p` the pool afterwards. -/
inductive Pool.Dedication (q p : Pool) (u : Identity) (s : String) (now : Float) :
    Option Outcome → Prop
  /-- The user has the channel. -/
  | renewed (l : Lease) (lease : q.leaseOf u s = some l)
      (after : p.leaseOf u s = some { l with stamp := now }) :
      Dedication q p u s now (some (.ok (some l.channel)))
  /-- The user has channels to other services only. -/
  | refused (unlet : q.leaseOf u s = none) (others : ∃ s', q.leaseOf u s' ≠ none) (same : p = q) :
      Dedication q p u s now (some (.error .noSuchKey))
  /-- The user has none at all. -/
  | given (new : ∀ s', q.leaseOf u s' = none)
      (after : p.leaseOf u s = (q.free s).head?.map fun c => { channel := c, stamp := now }) :
      Dedication q p u s now (some (.ok none))

theorem Pool.Accounts.dedication {p p' : Pool} {held : List (String × Channel)}
    (h : p.Accounts held) {s : String} (hs : s ∈ p.services.keys) {task : Nat} {name : Document}
    {user : User} (huser : User.ofDocument task name = .ok user) {now : Float}
    {answer : Option Outcome} (hperform : (Errand.claim s name).perform p task now = (answer, p')) :
    ∃ q, (Errand.claim s name).prepare p now = .ok q ∧
      q.Dedication p' user.identity s now answer := by
  obtain ⟨q, hprepare, hq, hcontinues, -⟩ := h.prepare now (.claim s name)
  refine ⟨q, hprepare, ?_⟩
  rw [Errand.perform_claim hprepare huser] at hperform
  cases hlease : q.leaseOf user.identity s with
  | some l =>
      obtain ⟨p'', hclaim, hrenewed⟩ := exists_claim_of_lease hlease now
      rw [hclaim] at hperform
      cases hperform
      exact .renewed l hlease hrenewed
  | none =>
      cases hfind : q.dedicated.find? user.identity with
      | some t =>
          have hothers : ∃ s', q.leaseOf user.identity s' ≠ none := by
            by_contra hnone
            rw [hq.find?_eq_none_iff.mpr (by simpa using hnone)] at hfind
            cases hfind
          rw [claim_of_others hfind hlease] at hperform
          cases hperform
          exact .refused hlease hothers rfl
      | none =>
          have hserved : s ∈ q.queues.keys := hq.served s (hcontinues.services ▸ hs)
          obtain ⟨p'', hclaim, hgiven⟩ := exists_claim_of_none hfind hserved now
          rw [hclaim] at hperform
          cases hperform
          exact .given (leaseOf_of_none hfind) hgiven

/-- A dedicated request is answered as it should be: with the channel that the user has afterwards,
or with none if the user had none and none was free. -/
def Pool.Answers (q p : Pool) (u : Identity) (s : String) (answer : Option Outcome) : Prop :=
  (∃ l, p.leaseOf u s = some l ∧ answer = some (.ok (some l.channel))) ∨
    q.leaseOf u s = none ∧ q.free s = [] ∧ answer = some (.ok none)

namespace Pool.Dedication

variable {q p : Pool} {u : Identity} {s : String} {now : Float} {answer : Option Outcome}

/-- A claim is answered as it should be if the user has a lease for the service, or no lease at all
while no channel is free. -/
theorem answers_iff (h : q.Dedication p u s now answer) :
    q.Answers p u s answer ↔
      q.leaseOf u s ≠ none ∨ (∀ s', q.leaseOf u s' = none) ∧ q.free s = [] := by
  cases h with
  | renewed l lease after => simp [Answers, lease, after]
  | refused unlet others same =>
      have hsome : ¬∀ s', q.leaseOf u s' = none := by simpa using others
      simp [Answers, unlet, hsome]
  | given new after => simp [Answers, new]

/-- A user who has the channel is told of it and keeps it. -/
theorem of_lease (h : q.Dedication p u s now answer) {l : Lease} (hl : q.leaseOf u s = some l) :
    answer = some (.ok (some l.channel)) ∧ p.leaseOf u s = some { l with stamp := now } := by
  cases h with
  | renewed l' lease after =>
      rw [lease] at hl
      cases hl
      exact ⟨rfl, after⟩
  | refused unlet others same =>
      rw [unlet] at hl
      cases hl
  | given new after =>
      rw [new s] at hl
      cases hl

/-- It fails only for a user who has a lease of another service. -/
theorem error_iff (h : q.Dedication p u s now answer) (f : Fault) :
    answer = some (.error f) ↔
      f = .noSuchKey ∧ q.leaseOf u s = none ∧ ∃ s', q.leaseOf u s' ≠ none := by
  cases h with
  | renewed l lease after => simp [lease]
  | refused unlet others same =>
      rw [Option.some.injEq, Except.error.injEq]
      exact ⟨fun hf => ⟨hf.symm, unlet, others⟩, fun hf => hf.1.symm⟩
  | given new after => simp [new]

/-- A user without leases is given the first free channel. -/
theorem of_new (h : q.Dedication p u s now answer) (hnew : ∀ s', q.leaseOf u s' = none) :
    answer = some (.ok none) ∧
      p.leaseOf u s = (q.free s).head?.map fun c => { channel := c, stamp := now } := by
  cases h with
  | renewed l lease after =>
      rw [hnew s] at lease
      cases lease
  | refused unlet others same =>
      obtain ⟨s', hs'⟩ := others
      exact absurd (hnew s') hs'
  | given new after => exact ⟨rfl, after⟩

/-- Whatever lease there is after a request is as old as the request. -/
theorem stamp_eq (h : q.Dedication p u s now answer) {l : Lease} (hl : p.leaseOf u s = some l) :
    l.stamp = now := by
  cases h with
  | renewed l' lease after =>
      rw [after] at hl
      cases hl
      rfl
  | refused unlet others same =>
      rw [same, unlet] at hl
      cases hl
  | given new after =>
      rw [after] at hl
      obtain ⟨c, -, rfl⟩ := Option.map_eq_some_iff.mp hl
      rfl

end Pool.Dedication

/-- **Which dedicated requests are answered as they should be.**  At every office, once the leases
that have run out are gone: exactly those of users who have the channel, and of users without any
channel when none is free.  The former get the channel that they had, and keep it.  A user who has
channels to other services only is refused, and nobody else is.  A user without any channel is told
of none, and has the first free one afterwards.  Whoever has a channel after a request gets it at
every request, as long as the last one is no longer ago than a lease lasts. -/
theorem dedicated_request_answered_iff (start : Float) (services : List (String × String × String))
    {o : Office} (hreaches : Office.Reaches (.offering start services) o) {s : String}
    (hs : s ∈ services.map Prod.fst) (v : Value) (now : Float) :
    let ask := Errand.claim s (.value v)
    let u := Identity.ofValue o.desk.tasks v
    let p := (o.start ask now).desk.pool
    ∃ q, ask.prepare o.desk.pool now = .ok q ∧
      (q.Answers p u s (o.answer ask now) ↔
        q.leaseOf u s ≠ none ∨ (∀ s', q.leaseOf u s' = none) ∧ q.free s = []) ∧
      (∀ l, q.leaseOf u s = some l → o.answer ask now = some (.ok (some l.channel)) ∧
        p.leaseOf u s = some { l with stamp := now }) ∧
      (∀ f, o.answer ask now = some (.error f) ↔
        f = .noSuchKey ∧ q.leaseOf u s = none ∧ ∃ s', q.leaseOf u s' ≠ none) ∧
      ((∀ s', q.leaseOf u s' = none) → o.answer ask now = some (.ok none) ∧
        p.leaseOf u s = (q.free s).head?.map fun c => { channel := c, stamp := now }) ∧
      ∀ l, p.leaseOf u s = some l → ∀ last o', Office.Attended u s now (o.start ask now) last o' →
        ∀ e later, e.AsksFor o'.desk.tasks u s → ¬later - last > leaseTime →
          o'.answer e later = some (.ok (some l.channel)) := by
  intro ask u p
  have huntouched := Pool.untouched_offering start services
  obtain ⟨hbooks, hcontinues⟩ := hreaches.books huntouched.accounts
  have hserved : s ∈ o.desk.pool.services.keys := by
    rw [hcontinues.services]
    exact Pool.mem_keys_offering hs start
  have hperform : ask.perform o.desk.pool o.desk.tasks now = (o.answer ask now, p) :=
    Prod.ext rfl (Desk.pool_start _ _ _).symm
  have huser : User.ofDocument o.desk.tasks (.value v) = .ok ⟨u, .value v⟩ := rfl
  obtain ⟨q, hprepare, hdedication⟩ := hbooks.dedication hserved huser hperform
  refine ⟨q, hprepare, hdedication.answers_iff, fun _ => hdedication.of_lease,
    hdedication.error_iff, hdedication.of_new, ?_⟩
  intro l hl last o' hattended e later hasks hsoon
  obtain ⟨hbooks', hcontinues'⟩ := (Office.Moves.start o ask now (by simp [ask])).books hbooks
  have hlease : p.leaseOf u s = some ⟨l.channel, now⟩ := by
    rw [hl, ← hdedication.stamp_eq hl]
  have hlets : (o.start ask now).Lets u s ⟨l.channel, now⟩ :=
    ⟨hbooks', hcontinues'.leaseTime.trans (hcontinues.leaseTime.trans huntouched.leaseTime), hlease⟩
  have hkept := hattended.lets hlets
  exact (hkept.books.perform_asked hkept.lease (hkept.live hsoon) hasks).1

/-- An office with one channel, which one user has asked for. -/
def Office.letToAnn : Office :=
  (Office.offering 1000 [("yolo", "h", "1")]).start (.claim "yolo" (.text "ann")) 1000

/-- The channel that a user asks for every ten seconds stays with the user, though there is a
clean-up and somebody else asks for it. -/
theorem dedicated_request_answered_iff_letToAnn :
    Office.Reaches (.offering 1000 [("yolo", "h", "1")]) Office.letToAnn ∧
      (∃ q, (Errand.claim "yolo" (.text "ann")).prepare Office.letToAnn.desk.pool 1005 = .ok q ∧
        q.Answers (Office.letToAnn.start (.claim "yolo" (.text "ann")) 1005).desk.pool
          (.named "ann") "yolo" (Office.letToAnn.answer (.claim "yolo" (.text "ann")) 1005)) ∧
      ((Office.letToAnn.start (.claim "yolo" (.text "ann")) 1005).start
        (.claim "yolo" (.text "bob")) 1014).answer (.claim "yolo" (.text "ann")) 1015 =
          some (.ok (some ⟨0, "h:1"⟩)) := by
  have hreaches : Office.Reaches (.offering 1000 [("yolo", "h", "1")]) Office.letToAnn :=
    .single ⟨_, .start _ _ _ (by simp)⟩
  obtain ⟨q, hprepare, hanswers, -, -, -, hkept⟩ := dedicated_request_answered_iff 1000
    [("yolo", "h", "1")] hreaches (s := "yolo") (by decide) (.text "ann") 1005
  have hbob : ¬(Errand.claim "yolo" (.text "bob")).AsksFor 2 (.named "ann") "yolo" := by
    intro hasks
    obtain ⟨name, user, hname, huser, hann⟩ := hasks
    cases hname
    cases huser
    exact absurd hann (by decide)
  have hsoon : ¬(1014 : Float) - 1005 > leaseTime := by decide
  have hattended := Office.Attended.other .refl
    (.start (Office.letToAnn.start (.claim "yolo" (.text "ann")) 1005)
      (.claim "yolo" (.text "bob")) 1014 (by simp)) hsoon hbob
  have hlease : ((Errand.claim "yolo" (.value (.text "ann"))).prepare Office.letToAnn.desk.pool
      1005).map (fun q => q.leaseOf (.named "ann") "yolo") = .ok (some ⟨⟨0, "h:1"⟩, 1000⟩) := rfl
  refine ⟨hreaches, ⟨q, hprepare, hanswers.mpr (.inl ?_)⟩, ?_⟩
  · rw [hprepare, Except.map, Except.ok.injEq] at hlease
    exact Option.ne_none_iff_exists'.mpr ⟨_, hlease⟩
  · exact hkept ⟨⟨0, "h:1"⟩, 1005⟩ rfl 1005 _ hattended _ 1015
      ⟨_, ⟨.named "ann", .text "ann"⟩, rfl, rfl, rfl⟩ (by decide)

/-- A first request is answered with none though a channel is free and is the user's from then
on. -/
theorem first_request_not_answered :
    ∃ q, (Errand.claim "yolo" (.text "ann")).prepare
        (Office.offering 1000 [("yolo", "h", "1")]).desk.pool 1000 = .ok q ∧
      q.free "yolo" = [⟨0, "h:1"⟩] ∧
      ¬q.Answers Office.letToAnn.desk.pool (.named "ann") "yolo"
        ((Office.offering 1000 [("yolo", "h", "1")]).answer (.claim "yolo" (.text "ann"))
          1000) := by
  have hanswer : (Office.offering 1000 [("yolo", "h", "1")]).answer (.claim "yolo" (.text "ann"))
      1000 = some (.ok none) := rfl
  refine ⟨_, rfl, rfl, ?_⟩
  rw [hanswer]
  intro hanswers
  rcases hanswers with ⟨l, -, hchannel⟩ | ⟨-, hfree, -⟩
  · cases hchannel
  · exact absurd hfree (by decide)

end DronePilot.Service
