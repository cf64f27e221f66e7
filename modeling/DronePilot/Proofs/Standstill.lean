import DronePilot.Proofs.Sharing

/-!
# A router at a standstill

A request that finds no channel keeps its turn while it waits, so that nobody else looks for a
channel in the meantime.  Nobody cleans up either, since a clean-up is part of looking for a
channel.  What can end the wait is a channel that comes back, and only requests outside streams
bring one back.  If all channels are with users when the request begins to wait, it waits for ever,
and so do all who come after it, however long ago the leases ran out.

Who waits is written in the lines of the pool and in the list of those who were woken.  Nobody does
(`Pool.Deserted`), or one task does (`Pool.Awaited`): it stands in line as long as there is no
channel and has been woken once there is one.

* `Router.Step.attends` — every step keeps the one who waits and the one whose turn it is the same.
* `Router.lookAgain_serves` — one who was woken gets a channel.
* `Router.Reaches.stuck` — nothing that happens ends a standstill.
* `waiting_request_served_iff` — who waits in vain.
-/

namespace DronePilot.Service

namespace Pool

/-- The tasks that stand in line for a channel to a service. -/
def lineFor (p : Pool) (s : String) : List Nat :=
  ((p.queues.find? s).map Queue.line).getD []

/-- Nobody waits for a channel. -/
structure Deserted (p : Pool) : Prop where
  line : ∀ s, p.lineFor s = []
  woken : p.woken = []

/-- One task waits for a channel to a service, and nobody else waits for any. -/
structure Awaited (p : Pool) (s : String) (task : Nat) : Prop where
  others : ∀ s', s' ≠ s → p.lineFor s' = []
  place : p.free s = [] ∧ p.lineFor s = [task] ∧ p.woken = [] ∨
    p.free s ≠ [] ∧ p.lineFor s = [] ∧ p.woken = [{ service := s, task := task }]

/-- All channels to a service are with users. -/
def AllLet (p : Pool) (s : String) : Prop :=
  ∀ c, (s, c) ∈ p.allChannels → ∃ u l, p.leaseOf u s = some l ∧ l.channel = c

section

variable {p p' q : Pool} {s s' : String} {c : Channel} {task : Nat} {now : Float}
  {held : List (String × Channel)}

/-- What is in the queue of a service when that of one service is replaced. -/
theorem free_insert (p : Pool) (s s' : String) (q : Queue) (woken : List Wake) :
    { p with queues := p.queues.insert s q, woken := woken }.free s' =
      if s' = s then q.channels else p.free s' := by
  unfold free
  by_cases hs : s' = s
  · subst hs
    simp [Table.find?_insert_self]
  · simp [Table.find?_insert_of_ne _ _ hs, hs]

/-- Who stands in line for a service when the queue of one service is replaced. -/
theorem lineFor_insert (p : Pool) (s s' : String) (q : Queue) (woken : List Wake) :
    { p with queues := p.queues.insert s q, woken := woken }.lineFor s' =
      if s' = s then q.line else p.lineFor s' := by
  unfold lineFor
  by_cases hs : s' = s
  · subst hs
    simp [Table.find?_insert_self]
  · simp [Table.find?_insert_of_ne _ _ hs, hs]

/-- **A channel that is put into a queue** goes to the end of it and wakes the first in line. -/
theorem put_places (h : p.put s c = .ok p') :
    (∀ s', p'.free s' = if s' = s then p.free s ++ [c] else p.free s') ∧
      (∀ s', p'.lineFor s' = if s' = s then (p.lineFor s).tail else p.lineFor s') ∧
      p'.woken = p.woken ++ (p.lineFor s).head?.toList.map fun task => ⟨s, task⟩ := by
  unfold put at h
  cases hq : p.queues.find? s with
  | none =>
      rw [queue_of_not_mem (Table.find?_eq_none_iff.mp hq)] at h
      cases h
  | some q =>
      have hfree : p.free s = q.channels := by simp [free, hq]
      have hline : p.lineFor s = q.line := by simp [lineFor, hq]
      rw [queue_of_find? hq] at h
      simp only [bind, Except.bind, pure, Except.pure, Except.ok.injEq] at h
      rw [hfree, hline]
      cases hwaiting : q.line with
      | nil =>
          rw [hwaiting] at h
          subst h
          refine ⟨fun s' => free_insert p s s' _ p.woken, fun s' => ?_, by simp⟩
          rw [lineFor_insert p s s' _ p.woken]
          simp
      | cons task line =>
          rw [hwaiting] at h
          subst h
          exact ⟨fun s' => free_insert p s s' _ _, fun s' => lineFor_insert p s s' _ _, by simp⟩

/-- Taking a channel changes no line. -/
theorem take_places {oc : Option Channel} (h : p.take s = .ok (oc, p')) :
    (∀ s', p'.lineFor s' = p.lineFor s') ∧ p'.woken = p.woken ∧ oc = (p.free s).head? := by
  obtain ⟨q, hq, hcases⟩ := take_cases h
  have hfree : p.free s = q.channels := by simp [free, hq]
  have hline : p.lineFor s = q.line := by simp [lineFor, hq]
  rw [hfree]
  rcases hcases with ⟨hempty, rfl, rfl⟩ | ⟨c, rest, hchannels, rfl, rfl⟩
  · exact ⟨fun s' => rfl, rfl, by simp [hempty]⟩
  · refine ⟨fun s' => ?_, rfl, by simp [hchannels]⟩
    rw [lineFor_insert p s s' _ p.woken]
    split
    · next hs => rw [hs, hline]
    · rfl

/-- Who begins to wait goes to the end of the line. -/
theorem await_places (h : p.await s task = .ok p') :
    (∀ s', p'.lineFor s' = if s' = s then p.lineFor s ++ [task] else p.lineFor s') ∧
      (∀ s', p'.free s' = p.free s') ∧ p'.woken = p.woken := by
  obtain ⟨q, hq, rfl⟩ := await_cases h
  have hfree : p.free s = q.channels := by simp [free, hq]
  have hline : p.lineFor s = q.line := by simp [lineFor, hq]
  refine ⟨fun s' => ?_, fun s' => ?_, rfl⟩
  · rw [lineFor_insert p s s' _ p.woken, hline]
  · rw [free_insert p s s' _ p.woken]
    split
    · next hs => rw [hs, hfree]
    · rfl

/-- A channel that is queued for a service is free for it. -/
theorem mem_free (h : (s, c) ∈ p.queued) : c ∈ p.free s := by
  obtain ⟨⟨s', q⟩, hentry, hmem⟩ := List.mem_flatMap.mp h
  obtain ⟨c', hc, heq⟩ := List.mem_map.mp hmem
  cases heq
  simpa [free, Table.find?_eq_some_iff.mpr hentry] using hc

/-- A channel that is with users is in a lease of one of them. -/
theorem exists_leaseOf (h : (s, c) ∈ p.leased) :
    ∃ u l, p.leaseOf u s = some l ∧ l.channel = c := by
  obtain ⟨⟨u, t⟩, hentry, hmem⟩ := List.mem_flatMap.mp h
  obtain ⟨⟨s', l⟩, hlease, heq⟩ := List.mem_map.mp hmem
  cases heq
  refine ⟨u, l, ?_, rfl⟩
  rw [leaseOf_of_find? (Table.find?_eq_some_iff.mpr hentry)]
  exact Table.find?_eq_some_iff.mpr hlease

/-! ### Nobody waits -/

/-- Whether a pool is deserted depends on its queues and on who was woken. -/
theorem Deserted.congr (h : p.Deserted) (hqueues : p'.queues = p.queues)
    (hwoken : p'.woken = p.woken) : p'.Deserted := by
  refine ⟨fun s => ?_, by rw [hwoken, h.woken]⟩
  rw [lineFor, hqueues, ← lineFor, h.line]

/-- Where nobody waits, a channel that comes back wakes nobody. -/
theorem Deserted.put (h : p.Deserted) (hput : p.put s c = .ok p') : p'.Deserted := by
  obtain ⟨-, hline, hwoken⟩ := put_places hput
  refine ⟨fun s' => ?_, by simp [hwoken, h.woken, h.line]⟩
  rw [hline, h.line, h.line]
  simp

/-- Nor do several channels. -/
theorem Deserted.putAll {cs : List (String × Channel)} (h : p.Deserted)
    (hput : Pool.putAll cs p = .ok p') : p'.Deserted := by
  induction cs generalizing p with
  | nil =>
      cases hput
      exact h
  | cons e cs ih =>
      simp only [Pool.putAll, bind, Except.bind] at hput
      cases hfirst : p.put e.1 e.2 with
      | error f => simp [hfirst] at hput
      | ok q =>
          rw [hfirst] at hput
          exact ih (h.put hfirst) hput

/-- Opening the channels leaves a pool deserted. -/
theorem Deserted.openChannels (h : p.Deserted) (hopen : p.openChannels = .ok p') :
    p'.Deserted := by
  unfold Pool.openChannels at hopen
  split at hopen
  · cases hopen
    exact h
  · cases hput : Pool.putAll p.allChannels p with
    | error f => simp [hput, bind, Except.bind] at hopen
    | ok q =>
        simp only [hput, bind, Except.bind, pure, Except.pure, Except.ok.injEq] at hopen
        subst hopen
        exact (h.putAll hput).congr rfl rfl

/-- So does taking back the leases that have run out. -/
theorem Deserted.cleanUp (h : p.Deserted) (hclean : p.cleanUp now = .ok p') : p'.Deserted := by
  unfold Pool.cleanUp at hclean
  split at hclean
  · cases hput : Pool.putAll (p.expiredChannels now) { p with lastCleanUp := now } with
    | error f =>
        rw [expiredChannels] at hput
        simp [hput, bind, Except.bind] at hclean
    | ok q =>
        have hbefore : { p with lastCleanUp := now }.Deserted := h.congr rfl rfl
        have hafter : q.Deserted := hbefore.putAll hput
        rw [expiredChannels] at hput
        cases hvacate : Pool.vacateAll (p.expiredKeys now) p.dedicated with
        | error f =>
            rw [expiredKeys] at hvacate
            simp [hput, hvacate, bind, Except.bind] at hclean
        | ok dedicated =>
            rw [expiredKeys] at hvacate
            simp only [hput, hvacate, bind, Except.bind, pure, Except.pure, Except.ok.injEq]
              at hclean
            subst hclean
            exact hafter.congr rfl rfl
  · cases hclean
    exact h

/-- So does taking a channel: whoever finds none is put in line later. -/
theorem Deserted.take {oc : Option Channel} (h : p.Deserted) (htake : p.take s = .ok (oc, p')) :
    p'.Deserted := by
  obtain ⟨hline, hwoken, -⟩ := take_places htake
  exact ⟨fun s' => by rw [hline, h.line], by rw [hwoken, h.woken]⟩

/-- So does the claim of a user. -/
theorem Deserted.claim {user : User} {oc : Option Channel} (h : p.Deserted)
    (hclaim : p.claim s user now = .ok (oc, p')) : p'.Deserted := by
  rcases claim_cases hclaim with ⟨t, l, -, -, -, rfl⟩ | ⟨-, -, htake⟩ | ⟨c, q, -, -, htake, rfl⟩
  · exact h.congr rfl rfl
  · exact h.take htake
  · exact (h.take htake).congr rfl rfl

/-- Opening and cleaning up before somebody looks for a channel. -/
theorem Deserted.lookout (h : p.Deserted)
    (hprepare : (do let p ← p.openChannels; p.cleanUp now) = .ok q) : q.Deserted := by
  cases hopen : p.openChannels with
  | error f => simp [hopen, bind, Except.bind] at hprepare
  | ok q' =>
      rw [hopen] at hprepare
      exact (h.openChannels hopen).cleanUp hprepare

/-- Nobody waits before the first request. -/
theorem deserted_offering (now : Float) (services : List (String × String × String)) :
    (Pool.offering now services).Deserted := by
  have hfold : ∀ {p : Pool}, p.Deserted →
      (services.foldl (fun p s => p.add s.1 s.2.1 s.2.2) p).Deserted := by
    induction services with
    | nil => exact fun h => h
    | cons e services ih =>
        intro p h
        refine ih ⟨fun s' => ?_, h.woken⟩
        have hline := lineFor_insert p e.1 s' {} p.woken
        have hadd : (p.add e.1 e.2.1 e.2.2).lineFor s' =
            { p with queues := p.queues.insert e.1 {}, woken := p.woken }.lineFor s' := rfl
        rw [hadd, hline, h.line]
        simp
  exact hfold ⟨fun s => rfl, rfl⟩

/-! ### One task waits -/

/-- Whoever finds the queue empty is the one who waits. -/
theorem Deserted.await (h : p.Deserted) (hempty : p.free s = [])
    (hawait : p.await s task = .ok p') : p'.Awaited s task := by
  obtain ⟨hline, hfree, hwoken⟩ := await_places hawait
  refine ⟨fun s' hs => by rw [hline, if_neg hs, h.line], .inl ⟨?_, ?_, ?_⟩⟩
  · rw [hfree, hempty]
  · rw [hline, if_pos rfl, h.line, List.nil_append]
  · rw [hwoken, h.woken]

/-- A channel that comes back wakes the one who waits. -/
theorem Awaited.put (h : p.Awaited s task) (hput : p.put s c = .ok p') :
    p'.Awaited s task ∧ p'.free s ≠ [] := by
  obtain ⟨hfree, hline, hwoken⟩ := put_places hput
  have hsome : p'.free s ≠ [] := by simp [hfree]
  refine ⟨⟨fun s' hs => by rw [hline, if_neg hs, h.others s' hs], .inr ⟨hsome, ?_, ?_⟩⟩, hsome⟩
  · rcases h.place with ⟨-, hplace, -⟩ | ⟨-, hplace, -⟩ <;> simp [hline, hplace]
  · rcases h.place with ⟨-, hplace, hnone⟩ | ⟨-, hplace, hawake⟩
    · simp [hwoken, hplace, hnone]
    · simp [hwoken, hplace, hawake]

/-- As long as there is no channel, the task that waits has not been woken. -/
theorem Awaited.unwoken (h : p.Awaited s task) (hempty : p.free s = []) : p.woken = [] := by
  rcases h.place with ⟨-, -, hwoken⟩ | ⟨hsome, -⟩
  · exact hwoken
  · exact absurd hempty hsome

/-- One who was woken gets the first channel in the queue, and nobody waits any more. -/
theorem Awaited.rouse (h : p.Awaited s task) (hfree : p.free s ≠ []) :
    p.woken = [{ service := s, task := task }] ∧
      ∃ c p', p.rouse { service := s, task := task } = (some c, p') ∧ p'.Deserted := by
  obtain ⟨-, hline, hwoken⟩ := h.place.resolve_left fun hplace => hfree hplace.1
  refine ⟨hwoken, ?_⟩
  obtain ⟨q, hq⟩ : ∃ q, p.queues.find? s = some q := by
    cases hq : p.queues.find? s with
    | none => exact absurd (by simp [free, hq]) hfree
    | some q => exact ⟨q, rfl⟩
  have hchannels : q.channels ≠ [] := by simpa [free, hq] using hfree
  obtain ⟨c, rest, hrest⟩ := List.exists_cons_of_ne_nil hchannels
  have hqline : q.line = [] := by simpa [lineFor, hq] using hline
  refine ⟨c, { p with
    queues := p.queues.insert s { q with channels := rest }
    woken := p.woken.erase { service := s, task := task } }, ?_, ?_, ?_⟩
  · have hqueue : { p with woken := p.woken.erase { service := s, task := task } }.queue s =
        .ok q := queue_of_find? hq
    simp [Pool.rouse, Pool.lookAgain, Pool.take, hqueue, hrest, bind, Except.bind, pure,
      Except.pure]
  · intro s'
    rw [lineFor_insert p s s' _ _]
    split
    · exact hqline
    · next hs => exact h.others s' hs
  · simp [hwoken]

end

end Pool

namespace Router

variable {r r' : Router} {job : Job} {w : OpenJob} {c : Channel}

/-- Nobody waits for a channel but the request whose turn it is. -/
def Attends (r : Router) : Prop :=
  match r.turn with
  | none => r.pool.Deserted
  | some job => r.pool.opened = true ∧ r.pool.Awaited detectionService job.task

/-- A router attends if nobody waits and it is nobody's turn. -/
theorem attends_of_deserted (hturn : r.turn = none) (h : r.pool.Deserted) : r.Attends := by
  rw [Attends, hturn]
  exact h

/-- When it is nobody's turn, nobody waits for a channel. -/
theorem Attends.deserted (h : r.Attends) (hturn : r.turn = none) : r.pool.Deserted := by
  rwa [Attends, hturn] at h

/-- The request whose turn it is waits for a channel of the detection service. -/
theorem Attends.awaited (h : r.Attends) (hturn : r.turn = some job) :
    r.pool.opened = true ∧ r.pool.Awaited detectionService job.task := by
  rwa [Attends, hturn] at h

/-- Whether a router attends depends on its pool and on whose turn it is. -/
theorem Attends.congr (h : r.Attends) (hpool : r'.pool = r.pool) (hturn : r'.turn = r.turn) :
    r'.Attends := by
  rwa [Attends, hpool, hturn]

/-- Once the channels are open and cleaned up, they are open. -/
theorem opened_of_lookout {p q : Pool} {held : List (String × Channel)} (h : p.Accounts held)
    {now : Float} (hprepare : (do let p ← p.openChannels; p.cleanUp now) = .ok q) :
    q.opened = true := by
  obtain ⟨p₁, hopen, hbooks, -, -⟩ := h.openChannels
  obtain ⟨p₂, hclean, -, hcontinues, -⟩ := hbooks.cleanUp now
  have hopened : p₁.opened = true := by
    unfold Pool.openChannels at hopen
    split at hopen
    · next hdone =>
        cases hopen
        exact hdone
    · cases hput : Pool.putAll p.allChannels p with
      | error f => simp [hput, bind, Except.bind] at hopen
      | ok q =>
          simp only [hput, bind, Except.bind, pure, Except.pure, Except.ok.injEq] at hopen
          rw [← hopen]
  rw [hopen] at hprepare
  have hsame : p₁.cleanUp now = .ok q := hprepare
  rw [hclean] at hsame
  cases hsame
  exact hcontinues.opened hopened

/-- What comes before a request looks for a channel. -/
theorem prepare_errandOf (job : Job) (p : Pool) (now : Float) :
    (errandOf job).prepare p now = (do let p ← p.openChannels; p.cleanUp now) := by
  unfold errandOf
  split <;> rfl

/-- Giving a request its turn.  If it has to wait, it is the only one who does. -/
theorem Attends.lookFor (h : r.Attends) (horderly : r.Orderly) (hfree : r.turn = none) (job : Job) :
    (r.lookFor job).Attends := by
  obtain ⟨q, hprepare, -⟩ := horderly.books.prepare r.clock.now (errandOf job)
  have hlookout := (prepare_errandOf job r.pool r.clock.now).symm.trans hprepare
  have hq : q.Deserted := (h.deserted hfree).lookout hlookout
  unfold Router.lookFor
  rw [Errand.perform_of_prepare hprepare]
  cases hact : (errandOf job).act q job.task r.clock.now with
  | error f => exact attends_of_deserted hfree hq
  | ok got =>
      obtain ⟨oc, q'⟩ := got
      rcases Errand.act_cases hact with ⟨hself | hself, -⟩ | ⟨s, c, hself, -⟩ |
        ⟨s, name, user, c, -, rfl, -, hclaim⟩ | ⟨s, c, -, rfl, htake⟩ |
        ⟨s, q₁, hget, rfl, htake, hawait⟩
      · unfold errandOf at hself
        split at hself <;> cases hself
      · unfold errandOf at hself
        split at hself <;> cases hself
      · unfold errandOf at hself
        split at hself <;> cases hself
      · exact attends_of_deserted hfree (hq.claim hclaim)
      · exact attends_of_deserted hfree (hq.take htake)
      · obtain rfl : s = detectionService := by
          unfold errandOf at hget
          split at hget <;> cases hget
          rfl
        obtain ⟨-, -, hnone⟩ := Pool.take_places htake
        have hsame : q₁ = q := by
          obtain ⟨_, _, ⟨-, -, heq⟩ | ⟨_, _, -, hsome, -⟩⟩ := Pool.take_cases htake
          · exact heq
          · cases hsome
        subst hsame
        have hempty : q₁.free detectionService = [] := List.head?_eq_none_iff.mp hnone.symm
        refine ⟨?_, hq.await hempty hawait⟩
        exact (Pool.await_gains hawait).opened.symm.trans
          (opened_of_lookout horderly.books hlookout)

/-- **One who was woken gets a channel.** -/
theorem lookAgain_serves (hturn : r.turn = some job)
    (h : r.pool.Awaited detectionService job.task) (hfree : r.pool.free detectionService ≠ []) :
    ∃ c p, r.lookAgain = { r with pool := p, turn := none }.passOn job (some c) ∧ p.Deserted := by
  obtain ⟨hwoken, c, p, hrouse, hp⟩ := h.rouse hfree
  refine ⟨c, p, ?_, hp⟩
  simp [Router.lookAgain, hturn, hwoken, hrouse]

/-- One who was not woken stays where it is. -/
theorem lookAgain_of_unwoken (hwoken : r.pool.woken = []) : r.lookAgain = r := by
  unfold Router.lookAgain
  split
  · rfl
  · simp [hwoken]

/-- Looking again keeps a router attending. -/
theorem Attends.lookAgain (h : r.Attends) : r.lookAgain.Attends := by
  cases hturn : r.turn with
  | none =>
      have hsame : r.lookAgain = r := lookAgain_of_unwoken (h.deserted hturn).woken
      rwa [hsame]
  | some job =>
      obtain ⟨-, hawaited⟩ := h.awaited hturn
      by_cases hfree : r.pool.free detectionService = []
      · rwa [lookAgain_of_unwoken (hawaited.unwoken hfree)]
      · obtain ⟨c, p, hserved, hp⟩ := lookAgain_serves hturn hawaited hfree
        rw [hserved]
        exact attends_of_deserted rfl hp

/-- A channel that is given back, if one is. -/
theorem giveBack_cases {p p' : Pool} (h : giveBack w p = .ok p') :
    p' = p ∨ ∃ c, p.put detectionService c = .ok p' := by
  unfold giveBack at h
  split at h
  · exact .inr ⟨_, h⟩
  · cases h
    exact .inl rfl

/-- So does the end of a call. -/
theorem Attends.conclude (h : r.Attends) (call : Nat) (reply : Option String) :
    (r.conclude call reply).2.Attends := by
  unfold Router.conclude
  split
  · exact h
  · simp only
    split
    · exact h.congr rfl rfl
    · next p hback =>
        rcases giveBack_cases hback with rfl | ⟨c, hput⟩
        · exact h.congr rfl rfl
        · cases hturn : r.turn with
          | none => exact attends_of_deserted rfl ((h.deserted hturn).put hput)
          | some job =>
              obtain ⟨hopened, hawaited⟩ := h.awaited hturn
              exact ⟨(Pool.put_gains hput).opened.trans hopened, (hawaited.put hput).1⟩

/-- Opening the channels again changes nothing. -/
theorem pool_openChannels_of_opened (hopened : r.pool.opened = true) :
    r.openChannels.pool = r.pool ∧ r.openChannels.turn = r.turn ∧
      r.openChannels.working = r.working ∧ r.openChannels.calls = r.calls ∧
      r.openChannels.line = r.line := by
  have hopen : r.pool.openChannels = .ok r.pool := by simp [Pool.openChannels, hopened]
  simp [Router.openChannels, hopen, finish]

/-- **Whatever happens at a router**, nobody waits for a channel but the request whose turn it
is. -/
theorem Step.attends (hstep : Step r r') (h : r.Attends) (horderly : r.Orderly) : r'.Attends := by
  cases hstep with
  | takeIn q =>
      obtain ⟨hpool, -, -, hturn⟩ := takeIn_frame r q
      exact h.congr hpool hturn
  | next =>
      unfold Router.next
      split
      · next job rest hfree hline =>
          exact Attends.lookFor (r := { r with line := rest }) (h.congr rfl rfl)
            ⟨horderly.books, horderly.waiting, horderly.numbered, horderly.distinct⟩ hfree job
      · exact h
  | lookAgain => exact h.lookAgain
  | conclude call reply => exact h.conclude call reply
  | openChannels =>
      cases hturn : r.turn with
      | none =>
          obtain ⟨p, hopen, -⟩ := horderly.books.openChannels
          simp only [Router.openChannels, hopen]
          exact attends_of_deserted hturn ((h.deserted hturn).openChannels hopen)
      | some job =>
          obtain ⟨hpool, hsame, -⟩ := pool_openChannels_of_opened (h.awaited hturn).1
          exact h.congr hpool hsame
  | pass seconds => exact h.congr rfl rfl

/-- A router that attends does so for ever. -/
theorem Reaches.attends (hreaches : r.Reaches r') (h : r.Attends) (horderly : r.Orderly) :
    r'.Attends := by
  induction hreaches with
  | refl => exact h
  | tail hbefore hstep ih => exact hstep.attends ih (Reaches.orderly hbefore horderly).1

/-- The request that waits for a channel has none to wait for: no request will bring one back. -/
structure Stuck (r : Router) (job : Job) : Prop where
  turn : r.turn = some job
  opened : r.pool.opened = true
  unwoken : r.pool.woken = []
  idle : ∀ w ∈ r.working, w.hold? = none

/-- What stays as it was.  New requests join the line and nobody leaves it. -/
structure StandsStill (r r' : Router) : Prop where
  pool : r'.pool = r.pool
  turn : r'.turn = r.turn
  calls : r'.calls = r.calls
  working : ∀ w ∈ r'.working, w ∈ r.working
  line : r.line <+: r'.line

theorem StandsStill.refl (r : Router) : r.StandsStill r :=
  ⟨rfl, rfl, rfl, fun _ hw => hw, List.prefix_refl _⟩

/-- What stands still twice stands still. -/
theorem StandsStill.trans {r'' : Router} (h : r.StandsStill r') (h' : r'.StandsStill r'') :
    r.StandsStill r'' :=
  ⟨h'.pool.trans h.pool, h'.turn.trans h.turn, h'.calls.trans h.calls,
    fun w hw => h.working w (h'.working w hw), h.line.trans h'.line⟩

/-- A request that is stuck is still stuck in a router that stands still. -/
theorem Stuck.later (h : r.Stuck job) (hstill : r.StandsStill r') : r'.Stuck job :=
  ⟨hstill.turn.trans h.turn, by rw [hstill.pool, h.opened], by rw [hstill.pool, h.unwoken],
    fun w hw => h.idle w (hstill.working w hw)⟩

/-- A request that is taken in joins the line at its end. -/
theorem line_takeIn (r : Router) (q : Inquiry) : r.line <+: (r.takeIn q).line := by
  unfold takeIn
  simp only
  split
  · exact List.prefix_refl _
  · exact List.prefix_refl _
  · exact List.prefix_refl _
  · split
    · exact List.prefix_refl _
    · exact List.prefix_append _ _

/-- A request that took nothing from the pool gives nothing back. -/
theorem giveBack_of_idle (hidle : w.hold? = none) (p : Pool) : giveBack w p = .ok p := by
  unfold giveBack
  split
  · next c hstream hchannel => simp [OpenJob.hold?, hstream, hchannel] at hidle
  · rfl

/-- **No step ends a standstill.** -/
theorem Step.stuck (hstep : Step r r') (h : r.Stuck job) : r.StandsStill r' := by
  cases hstep with
  | takeIn q =>
      obtain ⟨hpool, hworking, hcalls, hturn⟩ := takeIn_frame r q
      exact ⟨hpool, hturn, hcalls, fun w hw => by rwa [hworking] at hw, line_takeIn r q⟩
  | next =>
      have hsame : r.next = r := by simp [Router.next, h.turn]
      rw [hsame]
      exact .refl r
  | lookAgain =>
      rw [lookAgain_of_unwoken h.unwoken]
      exact .refl r
  | conclude call reply =>
      unfold Router.conclude
      split
      · exact .refl r
      · next w hfind =>
          have hidle := h.idle w (List.mem_of_find?_eq_some hfind)
          simp only [giveBack_of_idle hidle]
          exact ⟨rfl, rfl, rfl, fun v hv => (List.mem_filter.mp hv).1, List.prefix_refl _⟩
  | openChannels =>
      obtain ⟨hpool, hturn, hworking, hcalls, hline⟩ := pool_openChannels_of_opened h.opened
      have hkept : r.line <+: r.openChannels.line := ⟨[], by rw [List.append_nil, hline]⟩
      exact ⟨hpool, hturn, hcalls, fun w hw => by rwa [hworking] at hw, hkept⟩
  | pass seconds => exact ⟨rfl, rfl, rfl, fun w hw => hw, List.prefix_refl _⟩

/-- **Nothing that happens ends a standstill.** -/
theorem Reaches.stuck (hreaches : r.Reaches r') (h : r.Stuck job) : r.StandsStill r' := by
  induction hreaches with
  | refl => exact .refl r
  | tail _ hstep ih => exact ih.trans (hstep.stuck (h.later ih))

/-- A request that holds something holds a channel and does not belong to a stream. -/
theorem exists_of_hold? (hholds : w.hold? ≠ none) :
    ∃ c, w.job.stream = false ∧ w.channel = some c ∧ w.hold? = some (detectionService, c) := by
  obtain ⟨a, hsome⟩ := Option.ne_none_iff_exists'.mp hholds
  unfold OpenJob.hold? at hsome ⊢
  split at hsome
  · cases hsome
  · next hstream =>
      obtain ⟨c, hchannel, -⟩ := Option.map_eq_some_iff.mp hsome
      exact ⟨c, by simpa using hstream, hchannel, by simp [hstream, hchannel]⟩

/-- While no channel is in the queue, the channels that are not with users are in the hands of
requests. -/
theorem Orderly.exists_hold?_iff (h : r.Orderly) (hopened : r.pool.opened = true)
    (hempty : r.pool.free detectionService = []) :
    (∃ w ∈ r.working, w.hold? ≠ none) ↔ ¬r.pool.AllLet detectionService := by
  have hcomplete := h.books.complete
  rw [hopened, if_pos rfl] at hcomplete
  constructor
  · rintro ⟨w, hw, hholds⟩ hlet
    obtain ⟨c, -, -, hhold⟩ := exists_of_hold? hholds
    have huse : (detectionService, c) ∈ r.inUse := List.mem_filterMap.mpr ⟨w, hw, hhold⟩
    obtain ⟨u, l, hl, rfl⟩ := hlet c (hcomplete.mem_iff.mp (List.mem_append_right _ huse))
    have hapart := (List.nodup_append.mp h.books.nodup).2.2
    exact hapart _ (List.mem_append_right _ (Pool.mem_leased hl)) _ huse rfl
  · intro hnot
    simp only [Pool.AllLet, not_forall] at hnot
    obtain ⟨c, hc, hfree⟩ := hnot
    rcases List.mem_append.mp (hcomplete.mem_iff.mpr hc) with hplace | huse
    · rcases List.mem_append.mp hplace with hqueued | hleased
      · exact absurd (Pool.mem_free hqueued) (by simp [hempty])
      · exact absurd (Pool.exists_leaseOf hleased) hfree
    · obtain ⟨w, hw, hhold⟩ := List.mem_filterMap.mp huse
      exact ⟨w, hw, by simp [hhold]⟩

/-- A worker is found by its call, since no two have the same. -/
theorem Orderly.find?_working (h : r.Orderly) (hw : w ∈ r.working) :
    r.working.find? (fun v => v.call == w.call) = some w := by
  cases hfind : r.working.find? fun v => v.call == w.call with
  | none => exact absurd (List.find?_eq_none.mp hfind w hw) (by simp)
  | some v =>
      have hcall : v.call = w.call := by simpa using List.find?_some hfind
      have hv := List.mem_of_find?_eq_some hfind
      rw [List.inj_on_of_nodup_map h.distinct hv hw hcall]

/-- It is nobody's turn, and a request that has had its turn is with a worker. -/
def Served (r : Router) (job : Job) : Prop :=
  r.turn = none ∧ ∃ call c, { call := call, job := job, channel := some c } ∈ r.working

/-- A request that waits is served at the next look if a channel is free. -/
theorem served_lookAgain (hturn : r.turn = some job)
    (h : r.pool.Awaited detectionService job.task) (hfree : r.pool.free detectionService ≠ []) :
    r.lookAgain.Served job := by
  obtain ⟨c, p, hserved, -⟩ := lookAgain_serves hturn h hfree
  rw [hserved]
  exact ⟨rfl, r.calls, c, List.mem_append_right _ (List.mem_singleton_self _)⟩

/-- **A request that gives a channel back** ends the wait, whether its worker answered or failed. -/
theorem Orderly.served_conclude (h : r.Orderly) (hturn : r.turn = some job)
    (hawaited : r.pool.Awaited detectionService job.task) (hw : w ∈ r.working)
    (hholds : w.hold? ≠ none) (reply : Option String) :
    (r.conclude w.call reply).2.lookAgain.Served job := by
  obtain ⟨c, hstream, hchannel, hhold⟩ := exists_of_hold? hholds
  have huse : (detectionService, c) ∈ r.inUse := List.mem_filterMap.mpr ⟨w, hw, hhold⟩
  obtain ⟨p, hput, -⟩ :=
    Pool.exists_put (h.books.served_of_mem (List.mem_append_right _ huse)) c
  obtain ⟨hstill, hfree⟩ := hawaited.put hput
  have hback : giveBack w r.pool = .ok p := by simp [giveBack, hstream, hchannel, hput]
  have hpool : (r.conclude w.call reply).2.pool = p := by
    simp [Router.conclude, h.find?_working hw, hback, finish]
  have hsame : (r.conclude w.call reply).2.turn = some job := by
    simp [Router.conclude, h.find?_working hw, hback, finish, hturn]
  rw [← hpool] at hstill hfree
  exact served_lookAgain hsame hstill hfree

end Router

/-- **Who waits in vain.**  A request that waits for a channel while none is in the queue is served
exactly if not all channels are with users.  Then some other request outside streams holds a
channel, and the wait ends when the first of these is over.  If all channels are with users, nothing
that happens ever changes the pool or ends the wait: no request is passed on any more, and the line
only grows. -/
theorem waiting_request_served_iff (now : Float) (services : List (String × String × String))
    (clock : Clock) {r : Router} (hreaches : Router.Reaches (.offering now services clock) r)
    {job : Job} (hturn : r.turn = some job) :
    job.stream = false ∧
      (r.pool.free detectionService ≠ [] → r.lookAgain.Served job) ∧
      (r.pool.free detectionService = [] →
        ((∃ w ∈ r.working, w.hold? ≠ none) ↔ ¬r.pool.AllLet detectionService) ∧
        ((∃ r', r.Reaches r' ∧ r'.Served job) ↔ ¬r.pool.AllLet detectionService) ∧
        (∀ w ∈ r.working, w.hold? ≠ none → ∀ reply,
          (r.conclude w.call reply).2.lookAgain.Served job) ∧
        (r.pool.AllLet detectionService → ∀ r', r.Reaches r' → r.StandsStill r')) := by
  have huntouched := Pool.untouched_offering now services
  have hstart := Router.orderly_of_untouched huntouched clock
  obtain ⟨horderly, -⟩ := hreaches.orderly hstart
  have hdeserted : (Pool.offering now services).Deserted := Pool.deserted_offering now services
  have hattends : r.Attends :=
    hreaches.attends (Router.attends_of_deserted rfl hdeserted) hstart
  obtain ⟨hopened, hawaited⟩ := hattends.awaited hturn
  refine ⟨horderly.waiting job hturn, Router.served_lookAgain hturn hawaited, ?_⟩
  intro hempty
  have hheld := horderly.exists_hold?_iff hopened hempty
  have hserves : ∀ w ∈ r.working, w.hold? ≠ none → ∀ reply,
      (r.conclude w.call reply).2.lookAgain.Served job :=
    fun w hw hholds reply => horderly.served_conclude hturn hawaited hw hholds reply
  have hstill : r.pool.AllLet detectionService → ∀ r', r.Reaches r' → r.StandsStill r' := by
    intro hlet r' hlater
    have hidle : ∀ w ∈ r.working, w.hold? = none := by
      intro w hw
      by_contra hholds
      exact hheld.mp ⟨w, hw, hholds⟩ hlet
    exact hlater.stuck ⟨hturn, hopened, hawaited.unwoken hempty, hidle⟩
  refine ⟨hheld, ⟨?_, ?_⟩, hserves, hstill⟩
  · rintro ⟨r', hlater, hnobody, -⟩ hlet
    have hsame := (hstill hlet r' hlater).turn
    rw [hnobody, hturn] at hsame
    cases hsame
  · intro hnot
    obtain ⟨w, hw, hholds⟩ := hheld.mpr hnot
    exact ⟨_, .tail (.single (.conclude r w.call none)) (.lookAgain _), hserves w hw hholds none⟩

/-- A router with one channel, which a stream has when a request outside streams comes. -/
def Router.letToStream : Router :=
  ((Router.offering 1000 [("yolo", "h", "1")] {}).accept
    ⟨some "\x7b\"user_name\": \"ann\", \"stream_mode\": true\x7d", some 3⟩).accept
      ⟨some "\x7b\"user_name\": \"bob\"\x7d", some 3⟩

/-- A router with one channel, which a request outside streams has when another one comes. -/
def Router.lentOut : Router :=
  ((Router.offering 1000 [("yolo", "h", "1")] {}).accept
    ⟨some "\x7b\"user_name\": \"ann\"\x7d", some 3⟩).accept
      ⟨some "\x7b\"user_name\": \"bob\"\x7d", some 3⟩

/-- The second request, as it waits at both. -/
def Job.ofBob : Job := ⟨1, .text "bob", false, .null, .float 0.2, 3⟩

/-- The stream has the only channel. -/
theorem Router.allLet_letToStream : Router.letToStream.pool.AllLet detectionService := by
  intro c hc
  have hall : Router.letToStream.pool.allChannels = [("yolo", ⟨0, "h:1"⟩)] := rfl
  rw [hall, List.mem_singleton] at hc
  obtain rfl : c = ⟨0, "h:1"⟩ := (Prod.mk.inj hc).2
  exact ⟨.named "ann", ⟨⟨0, "h:1"⟩, 1000⟩, rfl, rfl⟩

/-- This router comes about by two requests. -/
theorem Router.reaches_letToStream :
    Router.Reaches (.offering 1000 [("yolo", "h", "1")] {}) Router.letToStream :=
  (Router.reaches_accept _ _).trans (Router.reaches_accept _ _)

/-- Whoever waits for the channel of a stream is never served, and whoever waits for the channel of
another request is served after it. -/
theorem waiting_request_served_iff_one_channel :
    (Router.Reaches (.offering 1000 [("yolo", "h", "1")] {}) Router.letToStream ∧
      Router.letToStream.turn = some Job.ofBob ∧
      ¬∃ r, Router.letToStream.Reaches r ∧ r.Served Job.ofBob) ∧
    (Router.Reaches (.offering 1000 [("yolo", "h", "1")] {}) Router.lentOut ∧
      Router.lentOut.turn = some Job.ofBob ∧
      (Router.lentOut.conclude 0 (some "done")).2.lookAgain.Served Job.ofBob) := by
  have hlet : Router.letToStream.turn = some Job.ofBob := rfl
  have hlent : Router.lentOut.turn = some Job.ofBob := rfl
  have hreaches : Router.Reaches (.offering 1000 [("yolo", "h", "1")] {}) Router.lentOut :=
    (Router.reaches_accept _ _).trans (Router.reaches_accept _ _)
  obtain ⟨-, -, hvain⟩ := waiting_request_served_iff 1000 [("yolo", "h", "1")] {}
    Router.reaches_letToStream hlet
  obtain ⟨-, hnever, -⟩ := hvain rfl
  obtain ⟨-, -, hwait⟩ := waiting_request_served_iff 1000 [("yolo", "h", "1")] {} hreaches hlent
  obtain ⟨-, -, hserves, -⟩ := hwait rfl
  have hworking : Router.lentOut.working =
      [⟨0, ⟨0, .text "ann", false, .null, .float 0.2, 3⟩, some ⟨0, "h:1"⟩⟩] := rfl
  have hann : ⟨0, ⟨0, .text "ann", false, .null, .float 0.2, 3⟩, some ⟨0, "h:1"⟩⟩ ∈
      Router.lentOut.working := by
    simp [hworking]
  exact ⟨⟨Router.reaches_letToStream, hlet, fun h => hnever.mp h Router.allLet_letToStream⟩,
    hreaches, hlent, hserves _ hann (by decide) (some "done")⟩

/-- A request waits and keeps its turn while the queue is empty and no other request holds a
channel.  That is so still when a minute has passed and the user of the stream asks again, though
the lease of the one channel has run out by then. -/
theorem stream_brings_standstill :
    ∃ r, Router.Reaches (.offering 1000 [("yolo", "h", "1")] {}) r ∧ r.turn = some Job.ofBob ∧
      r.pool.free detectionService = [] ∧ (∀ w ∈ r.working, w.hold? = none) ∧
      ∃ l, r.pool.leaseOf (.named "ann") detectionService = some l ∧
        r.pool.expired r.clock.now l = true := by
  refine ⟨{ Router.letToStream with clock := Router.letToStream.clock.pass 60 }.accept
    ⟨some "\x7b\"user_name\": \"ann\", \"stream_mode\": true\x7d", some 3⟩, ?_, rfl, rfl, ?_,
    ⟨⟨0, "h:1"⟩, 1000⟩, rfl, by decide⟩
  · exact (Router.reaches_letToStream.tail (.pass _ 60)).trans (Router.reaches_accept _ _)
  · decide

end DronePilot.Service
