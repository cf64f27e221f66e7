import DronePilot.Detector.Client
import DronePilot.Event
import DronePilot.Vision.Scene

/-!
# Calls in flight

An exchange runs a client: each frame to be detected is a task, and each request to a service
elsewhere is a call that stays open until it is answered.  Tasks and calls are numbered in the order
in which they begin.
-/

namespace DronePilot.Detector

open DronePilot.Vision

/-- A call that has not been answered, and the task that waits for it. -/
structure OpenCall where
  call : Nat
  task : Nat
deriving Repr, DecidableEq

/-- A client with its calls.  A frame is shared under its name; one that was published together with
its number has none. -/
structure Exchange (φ : Type) where
  client : Client φ
  clock : Clock := {}
  shared : Shared (Option φ) := { frame := none }
  waiting : List OpenCall := []
  calls : Nat := 0
  tasks : Nat := 0
  /-- Answers of a service on this computer. -/
  replies : Script String := { answers := [] }
  log : List Event := []
  /-- The tasks that have ended, and how. -/
  ended : List (Nat × Except Fault Unit) := []

/-- How many seconds a request through the web may take. -/
def webTimeout : Int := 3

/-- The answer of a service that has nothing to say. -/
def emptyReply : String := "\x7b\x7d"

/-- A request to a service on this computer in the record. -/
def Request.localEvent (address : String) : Request → Event
  | direct method id conf w h =>
    { name := "rpc", details := [.text address, .text method, id, .value conf, .list [.int w, .int h]] }
  | web body => { name := "post", details := [.text address, .text body] }

/-- A request to a service elsewhere in the record. -/
def Request.remoteEvents (address : String) (call : Nat) : Request → List Event
  | direct method id conf w h =>
    [{ name := "remote"
       details := [.int call, .text address, .text method, id, .value conf, .list [.int w, .int h]] }]
  | web body =>
    [{ name := "timeout", details := [.int webTimeout] },
      { name := "remote", details := [.int call, .text address, .text body] }]

namespace Exchange

variable {φ : Type}

/-- Shares a frame with its result. -/
def publish (e : Exchange φ) (frame : Option φ) (result : Document) : Exchange φ :=
  { e with
    clock := e.clock.afterReading
    shared := { frame := frame, stamp := some e.clock.reading, result := result } }

/-- Detects a frame with a service on this computer that gives the reply, or fails. -/
def detectWith (e : Exchange φ) (frame : φ) (conf : Value) (reply : Except Fault String) :
    Except Fault Unit × Exchange φ :=
  match e.client.ask frame conf with
  | (.error f, c) => (.error f, { e with client := c })
  | (.ok request, c) =>
    let e := { e with log := e.log ++ [request.localEvent c.address] }
    match reply with
    | .error f => (.error f, { e with client := c })
    | .ok text =>
      match c.hear text with
      | (.error f, c) => (.error f, { e with client := c })
      | (.ok none, c) => (.ok (), { e with client := c })
      | (.ok (some (p, result)), c) =>
        let frame := if p.number.isNone then some p.frame else none
        (.ok (), { e with client := c }.publish frame result)

/-- Detects a frame with a service on this computer that answers from a script.  An answer is used
only if the service could be asked. -/
def detectHere (e : Exchange φ) (frame : φ) (conf : Value) : Except Fault Unit × Exchange φ :=
  let reply := e.replies.current emptyReply
  let replies := if (e.client.ask frame conf).1.isOk then e.replies.advance else e.replies
  { e with replies := replies }.detectWith frame conf (.ok reply)

/-- Ends a task. -/
def finish (e : Exchange φ) (task : Nat) (outcome : Except Fault Unit) : Exchange φ :=
  { e with ended := e.ended ++ [(task, outcome)] }

/-- Starts the task of detecting a frame of a given size. -/
def detect (e : Exchange φ) (frame : φ) (width height : Nat) (conf : Option Value) : Exchange φ :=
  let task := e.tasks
  let conf := conf.getD e.client.link.conf
  let e := { e with tasks := e.tasks + 1 }
  if e.client.isLocal then
    let (outcome, e) := e.detectHere frame conf
    e.finish task outcome
  else
    match e.client.submit frame width height conf with
    | (.error f, c) => { e with client := c }.finish task (.error f)
    | (.ok request, c) =>
      { e with
        client := c
        log := e.log ++ request.remoteEvents c.address e.calls
        waiting := e.waiting ++ [{ call := e.calls, task := task }]
        calls := e.calls + 1 }

/-- What becomes of a call: an answer, or none in time. -/
inductive Answer where
  | text (reply : String)
  | timeout

/-- Answers a call that is open; the flag says that there is such a call. -/
def respond (e : Exchange φ) (call : Nat) (answer : Answer) : Bool × Exchange φ :=
  match e.waiting.find? fun w => w.call == call with
  | none => (false, e)
  | some w =>
    let e := { e with waiting := e.waiting.filter fun w => w.call != call }
    match answer with
    | .timeout => (true, e.finish w.task (.error (Client.timeoutFault e.client.link)))
    | .text reply =>
      match e.client.receive reply with
      | (.error f, c) => (true, { e with client := c }.finish w.task (.error f))
      | (.ok none, c) => (true, { e with client := c }.finish w.task (.ok ()))
      | (.ok (some (frame, result)), c) =>
        (true, ({ e with client := c }.publish (some frame) result).finish w.task (.ok ()))

end Exchange

end DronePilot.Detector
