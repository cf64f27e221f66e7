import DronePilot.Clock
import DronePilot.Document.Reader
import DronePilot.Event
import DronePilot.Service.Pool

/-!
# The router

The router passes detection requests on to the workers of the detection service.  A request that
belongs to a stream uses the channel dedicated to its user; any other takes a channel from the pool
and puts it back when the worker has answered.

Only one request at a time may look for a channel.  A request that finds none keeps its turn until it
gets one, and the requests after it wait in line.
-/

namespace DronePilot.Service

/-- A request as it comes in: its description, and the size of its picture in bytes. -/
structure Inquiry where
  json : Option String
  picture : Option Nat

/-- A request that is to be passed on. -/
structure Job where
  task : Nat
  user : Document
  stream : Bool
  imageId : Document
  conf : Document
  bytes : Nat

/-- A job that a worker is doing, with the channel that was found for it. -/
structure OpenJob where
  call : Nat
  job : Job
  channel : Option Channel

/-- What a request comes to. -/
inductive Response where
  | nothing
  | text (s : String)
  /-- The request is refused. -/
  | refusal (reason : String)

/-- The router. -/
structure Router where
  pool : Pool
  clock : Clock := {}
  /-- The job whose turn it is, waiting for a channel. -/
  turn : Option Job := none
  /-- The jobs that wait for their turn. -/
  line : List Job := []
  working : List OpenJob := []
  calls : Nat := 0
  tasks : Nat := 0
  log : List Event := []
  /-- The tasks that have ended, and how. -/
  ended : List (Nat × Except Fault Response) := []

/-- The service that requests are for. -/
def detectionService : String := "yolo"

/-- The code of a refusal. -/
def refusalCode : Int := 400

/-- The confidence that a detection needs when the request does not say. -/
def defaultConf : Float := 0.2

namespace Router

/-- A router that starts at a given time. -/
def fresh : Router := { pool := { lastCleanUp := ({} : Clock).now } }

/-- Ends a task. -/
def finish (r : Router) (task : Nat) (outcome : Except Fault Response) : Router :=
  { r with ended := r.ended ++ [(task, outcome)] }

/-- Passes a job on to a worker. -/
def passOn (r : Router) (job : Job) (channel : Option Channel) : Router :=
  let method := if job.stream then "DetectStream" else "Detect"
  let address := (channel.map fun c => Document.text c.address).getD .null
  let event : Event :=
    { name := "remote"
      details := [.int r.calls, address, .text method, job.imageId, job.conf, .int job.bytes] }
  { r with
    log := r.log ++ [event]
    working := r.working ++ [{ call := r.calls, job := job, channel := channel }]
    calls := r.calls + 1 }

/-- What a job asks of the pool. -/
def errandOf (job : Job) : Errand :=
  if job.stream then .claim detectionService job.user else .get detectionService

/-- Looks for the channel of a job whose turn it is.  A job that has to wait keeps its turn. -/
def lookFor (r : Router) (job : Job) : Router :=
  match (errandOf job).perform r.pool job.task r.clock.now with
  | (some (.error f), p) => { r with pool := p }.finish job.task (.error f)
  | (some (.ok channel), p) => { r with pool := p }.passOn job channel
  | (none, p) => { r with pool := p, turn := some job }

/-- Gives the first job in line its turn if it is nobody's. -/
def next (r : Router) : Router :=
  match r.turn, r.line with
  | none, job :: rest => { r with line := rest }.lookFor job
  | _, _ => r

/-- Lets the job whose turn it is look again if it was woken. -/
def lookAgain (r : Router) : Router :=
  match r.turn with
  | none => r
  | some job =>
    let w : Wake := { service := detectionService, task := job.task }
    if w ∈ r.pool.woken then
      match r.pool.rouse w with
      | (some c, p) => { r with pool := p, turn := none }.passOn job (some c)
      | (none, p) => { r with pool := p }
    else r

/-- Lets the job whose turn it is look again if it was woken, and then gives the jobs in line their
turns, until one has to wait. -/
def resume (r : Router) : Router :=
  r.line.foldl (fun r _ => r.next) r.lookAgain

/-- What a request asks for, once it has been found complete. -/
def readJob (task : Nat) (json : String) (bytes : Nat) : Except Fault Job := do
  let d ← Document.read json
  let user ← d.fieldOr "user_name" (.text "user")
  let stream ← d.fieldOr "stream_mode" (.bool false)
  let imageId ← d.fieldOr "image_id" .null
  let conf ← d.fieldOr "conf" (.float defaultConf)
  pure
    { task := task, user := user, stream := stream.truthy, imageId := imageId, conf := conf
      bytes := bytes }

/-- Takes a request in.  One that is complete waits for its turn. -/
def takeIn (r : Router) (q : Inquiry) : Router :=
  let task := r.tasks
  let r := { r with tasks := r.tasks + 1 }
  let refuse (reason : String) : Router := r.finish task (.ok (.refusal reason))
  match q.json, q.picture with
  | none, _ => refuse "No JSON data provided"
  | some "", _ => refuse "No JSON data provided"
  | some _, none => refuse "No image provided"
  | some json, some bytes =>
    match readJob task json bytes with
    | .error f => r.finish task (.error f)
    | .ok job => { r with line := r.line ++ [job] }

/-- Takes a request and goes on as far as possible. -/
def accept (r : Router) (q : Inquiry) : Router := (r.takeIn q).resume

/-- Opens the channels of the services that have been added. -/
def openChannels (r : Router) : Router :=
  let task := r.tasks
  let r := { r with tasks := r.tasks + 1 }
  match r.pool.openChannels with
  | .error f => r.finish task (.error f)
  | .ok p => { r with pool := p }.finish task (.ok .nothing)

/-- Starts serving: the detection service is added with the settings of an environment. -/
def start (r : Router) (env : Environment) : Router :=
  let pool := r.pool.add detectionService (Settings.serviceHost env) (Settings.servicePortList env)
  { r with pool := pool }.openChannels.resume

/-- The event of serving, with the settings of an environment. -/
def serveEvent (env : Environment) : Event :=
  { name := "quart.run"
    details := [.dict [("host", .text "0.0.0.0"), ("port", .text (Settings.routerPort env)),
      ("debug", .bool true)]] }

/-- The pool when a job is over: a channel that was taken for it goes back. -/
def giveBack (w : OpenJob) (p : Pool) : Except Fault Pool :=
  match w.job.stream, w.channel with
  | false, some c => p.put detectionService c
  | _, _ => .ok p

/-- Ends a job with the answer of its worker, or without one if the worker failed.  The flag says
that there is such a call. -/
def conclude (r : Router) (call : Nat) (reply : Option String) : Bool × Router :=
  match r.working.find? fun w => w.call == call with
  | none => (false, r)
  | some w =>
    let r := { r with working := r.working.filter fun w => w.call != call }
    let outcome := match reply with
      | some s => .ok (.text s)
      | none => .error .remoteFailure
    match giveBack w r.pool with
    | .error f => (true, r.finish w.job.task (.error f))
    | .ok p => (true, { r with pool := p }.finish w.job.task outcome)

/-- Takes the answer of a worker, or learns that it failed; the flag says that there is such a
call. -/
def answer (r : Router) (call : Nat) (reply : Option String) : Bool × Router :=
  let (found, r) := r.conclude call reply
  (found, r.resume)

end Router

end DronePilot.Service
