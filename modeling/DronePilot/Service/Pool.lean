import DronePilot.Document
import DronePilot.Settings
import DronePilot.Table

/-!
# The pool of channels

Each service has a queue of channels to its workers.  A channel is taken from the queue for one
request and put back afterwards, or it is dedicated to a user, who keeps it as long as it is used
often enough.  Clean-up puts the channels back that have not been used for too long.

Somebody who finds a queue empty waits in line.  A channel that is put into the queue wakes the first
in line, who has to look again: somebody else may have been quicker.
-/

namespace DronePilot.Service

/-- A channel to a worker.  Two channels to one address are still two channels: each has a number of
its own. -/
structure Channel where
  serial : Nat
  address : String
deriving Repr, DecidableEq

/-- Who somebody is.  Users are told apart by what they call themselves, numbers by what they are
worth, truth values being one and zero.  A not-a-number equals nothing, not even itself, so that
whoever is called by it is a stranger in every task. -/
inductive Identity where
  | nobody
  | named (name : String)
  | whole (n : Int)
  | measure (bits : UInt64)
  | stranger (task : Nat)
deriving Repr, DecidableEq

/-- Who is called by a value in a task. -/
def Identity.ofValue (task : Nat) : Value → Identity
  | .nothing => nobody
  | .text s => named s
  | .bool b => whole (if b then 1 else 0)
  | .int n => whole n
  | .float x =>
    if x.isNaN then stranger task
    else
      match Binary64.wholeValue? x with
      | some n => whole n
      | none => measure x.toBits

/-- Whether two users are taken to be the same.  A stranger is never taken to be anybody. -/
def Identity.equals : Identity → Identity → Bool
  | .stranger _, _ => false
  | u, v => decide (u = v)

/-- Somebody who asks for a channel: who it is, and by which name. -/
structure User where
  identity : Identity
  name : Document

/-- The user that a document names in a task.  Lists and dictionaries name nobody at all. -/
def User.ofDocument (task : Nat) : Document → Except Fault User
  | .value v => .ok { identity := .ofValue task v, name := .value v }
  | .list _ | .dict _ => .error .wrongKind

/-- The free channels of a service, and the tasks that wait for one. -/
structure Queue where
  channels : List Channel := []
  line : List Nat := []
deriving Repr

/-- A dedicated channel and when it was used last. -/
structure Lease where
  channel : Channel
  stamp : Float
deriving Repr

/-- The channels of a user by service, and the name under which the user got the first of them. -/
structure Tenancy where
  name : Document
  leases : Table String Lease

/-- A task that was woken, and the service it waits for. -/
structure Wake where
  service : String
  task : Nat
deriving Repr, DecidableEq

/-- How long a dedicated channel lasts without being used, in seconds. -/
def leaseTime : Float := 10

/-- The pool. -/
structure Pool where
  /-- The host and the ports of each service. -/
  services : Table String (String × List String) := Table.empty
  queues : Table String Queue := Table.empty
  /-- The channels have been opened. -/
  opened : Bool := false
  dedicated : Table Identity Tenancy := Table.empty
  leaseTime : Float := leaseTime
  lastCleanUp : Float
  /-- The tasks that have been woken and have not looked again yet. -/
  woken : List Wake := []

namespace Pool

/-- Adds a service with an empty queue.  Whoever waits for a service of that name waits in vain from
then on. -/
def add (p : Pool) (service host ports : String) : Pool :=
  { p with
    services := p.services.insert service (host, Settings.splitPorts ports)
    queues := p.queues.insert service {} }

/-- The queue of a service. -/
def queue (p : Pool) (service : String) : Except Fault Queue :=
  match p.queues.find? service with
  | some q => .ok q
  | none => .error .noSuchKey

/-- Puts a channel into the queue of a service and wakes the first in line. -/
def put (p : Pool) (service : String) (channel : Channel) : Except Fault Pool := do
  let q ← p.queue service
  let channels := q.channels ++ [channel]
  pure <| match q.line with
    | [] => { p with queues := p.queues.insert service { q with channels := channels } }
    | task :: line =>
      { p with
        queues := p.queues.insert service { channels := channels, line := line }
        woken := p.woken ++ [{ service := service, task := task }] }

/-- Puts channels into queues, in order. -/
def putAll : List (String × Channel) → Pool → Except Fault Pool
  | [], p => .ok p
  | (service, channel) :: rest, p => do
    let p ← p.put service channel
    putAll rest p

/-- The addresses of all workers of all services. -/
def allAddresses (p : Pool) : List (String × String) :=
  p.services.entries.flatMap fun (service, host, ports) =>
    ports.map fun port => (service, Settings.address host port)

/-- The channels to all workers of all services, numbered in order. -/
def allChannels (p : Pool) : List (String × Channel) :=
  p.allAddresses.zipIdx.map fun ((service, address), serial) =>
    (service, { serial := serial, address := address })

/-- Opens the channels to all workers, once. -/
def openChannels (p : Pool) : Except Fault Pool :=
  if p.opened then .ok p
  else do
    let p ← putAll p.allChannels p
    pure { p with opened := true }

/-- Whether a lease has run out. -/
def expired (p : Pool) (now : Float) (l : Lease) : Bool :=
  now - l.stamp > p.leaseTime

/-- The leases that have run out, by user and service: whose they are, for which service and of which
channel. -/
def expiredLeases (p : Pool) (now : Float) : List (Identity × String × Channel) :=
  p.dedicated.entries.flatMap fun (user, tenancy) =>
    (tenancy.leases.entries.filter fun (_, l) => p.expired now l).map fun (service, l) =>
      (user, service, l.channel)

/-- The users of whom as many leases have run out as they have. -/
def expiredUsers (p : Pool) (now : Float) : List Identity :=
  (p.dedicated.entries.filter fun (user, tenancy) =>
    tenancy.leases.size == (p.expiredLeases now).countP fun e => e.1.equals user).map Prod.fst

/-- Ends a lease.  A user whose last lease ends is struck off. -/
def vacate (dedicated : Table Identity Tenancy) (user : Identity) (service : String) :
    Except Fault (Table Identity Tenancy) :=
  match dedicated.find? user with
  | none => .error .noSuchKey
  | some tenancy =>
    if tenancy.leases.contains service then
      let leases := tenancy.leases.erase service
      if leases.entries.isEmpty then .ok (dedicated.erase user)
      else .ok (dedicated.insert user { tenancy with leases := leases })
    else .error .noSuchKey

/-- Ends leases, in order. -/
def vacateAll : List (Identity × String) → Table Identity Tenancy →
    Except Fault (Table Identity Tenancy)
  | [], dedicated => .ok dedicated
  | (user, service) :: rest, dedicated => do
    let dedicated ← vacate dedicated user service
    vacateAll rest dedicated

/-- Strikes users off who are still in the books. -/
def strikeOff : List Identity → Table Identity Tenancy → Table Identity Tenancy
  | [], dedicated => dedicated
  | user :: rest, dedicated =>
    strikeOff rest (if dedicated.contains user then dedicated.erase user else dedicated)

/-- Puts the channels back whose leases have run out, ends these leases, and strikes off the users
who had no other.  There is a clean-up only if the last one is long enough ago. -/
def cleanUp (p : Pool) (now : Float) : Except Fault Pool :=
  if now - p.lastCleanUp > p.leaseTime then do
    let expired := p.expiredLeases now
    let q ← putAll (expired.map Prod.snd) { p with lastCleanUp := now }
    let dedicated ← vacateAll (expired.map fun e => (e.1, e.2.1)) p.dedicated
    pure { q with dedicated := strikeOff (p.expiredUsers now) dedicated }
  else .ok p

/-- Takes a channel from the queue of a service, if there is one. -/
def take (p : Pool) (service : String) : Except Fault (Option Channel × Pool) := do
  let q ← p.queue service
  pure <| match q.channels with
    | [] => (none, p)
    | c :: rest =>
      (some c, { p with queues := p.queues.insert service { q with channels := rest } })

/-- Puts a task in line for a channel. -/
def await (p : Pool) (service : String) (task : Nat) : Except Fault Pool := do
  let q ← p.queue service
  pure { p with queues := p.queues.insert service { q with line := q.line ++ [task] } }

/-- The dedicated channel of a user.  A user who has none gets one if there is one, and learns of it
at the next request only. -/
def claim (p : Pool) (service : String) (user : User) (now : Float) :
    Except Fault (Option Channel × Pool) :=
  match p.dedicated.find? user.identity with
  | none => do
    match ← p.take service with
    | (none, p) => pure (none, p)
    | (some c, p) =>
      let leases := Table.empty.insert service { channel := c, stamp := now }
      let tenancy := { name := user.name, leases := leases : Tenancy }
      pure (none, { p with dedicated := p.dedicated.insert user.identity tenancy })
  | some tenancy =>
    match tenancy.leases.find? service with
    | none => .error .noSuchKey
    | some l =>
      let leases := tenancy.leases.insert service { l with stamp := now }
      let tenancy := { tenancy with leases := leases }
      .ok (some l.channel, { p with dedicated := p.dedicated.insert user.identity tenancy })

/-- Looks again for a task that has waited: it gets a channel, or waits at the end of the line. -/
def lookAgain (p : Pool) (w : Wake) : Option Channel × Pool :=
  match p.take w.service with
  | .ok (some c, p) => (some c, p)
  | _ =>
    match p.await w.service w.task with
    | .ok p => (none, p)
    | .error _ => (none, p)

/-- Lets one of the tasks that were woken look again. -/
def rouse (p : Pool) (w : Wake) : Option Channel × Pool :=
  { p with woken := p.woken.erase w }.lookAgain w

end Pool

/-- How an errand ends: with the channel that it got or none, or with a fault. -/
abbrev Outcome := Except Fault (Option Channel)

/-- What can be asked of the pool. -/
inductive Errand where
  | openChannels
  | cleanUp
  | get (service : String)
  | claim (service : String) (user : Document)
  | release (service : String) (channel : Channel)

namespace Errand

/-- What happens before a channel is looked for: the channels are opened and cleaned up. -/
def prepare (p : Pool) (now : Float) : Errand → Except Fault Pool
  | .openChannels => p.openChannels
  | .cleanUp => p.cleanUp now
  | .get _ | .claim _ _ => do
    let p ← p.openChannels
    p.cleanUp now
  | .release _ _ => .ok p

/-- What an errand comes to: the channel that it got or none, or nothing yet if its task has to
wait. -/
def act (p : Pool) (task : Nat) (now : Float) :
    Errand → Except Fault (Option (Option Channel) × Pool)
  | .openChannels | .cleanUp => .ok (some none, p)
  | .release service channel => do
    let p ← p.put service channel
    pure (some none, p)
  | .claim service name => do
    let user ← User.ofDocument task name
    let (c, p) ← p.claim service user now
    pure (some c, p)
  | .get service => do
    match ← p.take service with
    | (some c, p) => pure (some (some c), p)
    | (none, p) => do
      let p ← p.await service task
      pure (none, p)

/-- Runs an errand as a task.  An errand that has to wait has no outcome yet.  One that fails leaves
the pool as it was prepared. -/
def perform (p : Pool) (task : Nat) (now : Float) (e : Errand) : Option Outcome × Pool :=
  match e.prepare p now with
  | .error f => (some (.error f), p)
  | .ok p =>
    match e.act p task now with
    | .error f => (some (.error f), p)
    | .ok (some c, p) => (some (.ok c), p)
    | .ok (none, p) => (none, p)

end Errand

/-- The pool with the tasks that use it. -/
structure Desk where
  pool : Pool
  tasks : Nat := 0
  /-- The tasks that have ended, with the channels that they got. -/
  ended : List (Nat × Outcome) := []

namespace Desk

/-- Ends a task. -/
def finish (d : Desk) (task : Nat) (outcome : Outcome) : Desk :=
  { d with ended := d.ended ++ [(task, outcome)] }

/-- Starts an errand as a task of its own. -/
def start (d : Desk) (e : Errand) (now : Float) : Desk :=
  let started := { d with tasks := d.tasks + 1 }
  match e.perform d.pool d.tasks now with
  | (some outcome, p) => { started with pool := p }.finish d.tasks outcome
  | (none, p) => { started with pool := p }

/-- Lets a task that was woken look again. -/
def resume (d : Desk) (w : Wake) : Desk :=
  match d.pool.rouse w with
  | (some c, p) => { d with pool := p }.finish w.task (.ok (some c))
  | (none, p) => { d with pool := p }

/-- Runs an errand as a task of its own, and then the tasks that it woke, in order. -/
def run (d : Desk) (e : Errand) (now : Float) : Desk :=
  let d := d.start e now
  d.pool.woken.foldl resume d

end Desk

end DronePilot.Service
