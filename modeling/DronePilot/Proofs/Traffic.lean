import DronePilot.Proofs.Custody
import DronePilot.Service.Router
import Mathlib.Logic.Relation

/-!
# Traffic: tasks and requests in any order

Tasks of a desk take turns wherever one of them has to wait, and so do the requests of a router.
Between two waits a task runs undisturbed, so that the pieces that may alternate are few.  At a desk
a task starts an errand, or one that was woken looks again (`Office.Moves`); an *office* is a desk
together with the channels that are in the hands of its tasks.  At a router a request is taken in,
the first in line gets its turn, the one whose turn it is looks again, a worker answers, and time
passes by any amount (`Router.Step`).

What the desk and the router do when each move is followed by all that it makes possible is one way
among many to put these pieces in order.

* `Office.reaches_run` — an errand that is run with all the tasks it wakes.
* `Router.reaches_accept`, `Router.reaches_answer`, `Router.reaches_start` — a request or an answer
  that is taken as far as possible, and the start of service.
-/

namespace DronePilot.Service

/-- A pool to which services have been added, each with its host and its ports.  No channel has been
opened yet. -/
def Pool.offering (now : Float) (services : List (String × String × String)) : Pool :=
  services.foldl (fun p s => p.add s.1 s.2.1 s.2.2) { lastCleanUp := now }

/-- A desk together with the channels that are in the hands of its tasks. -/
structure Office where
  desk : Desk
  held : List (String × Channel) := []

/-- The office of a pool to which services have been added. -/
def Office.offering (now : Float) (services : List (String × String × String)) : Office :=
  { desk := { pool := .offering now services } }

/-- The router of a pool to which services have been added. -/
def Router.offering (now : Float) (services : List (String × String × String)) (clock : Clock) :
    Router :=
  { pool := .offering now services, clock := clock }

namespace Office

/-- What a task gets at once if it starts an errand: an outcome, or nothing yet. -/
def answer (o : Office) (e : Errand) (now : Float) : Option Outcome :=
  (e.perform o.desk.pool o.desk.tasks now).1

/-- The office after a task has started an errand. -/
def start (o : Office) (e : Errand) (now : Float) : Office :=
  { desk := o.desk.start e now, held := e.holding o.held (o.answer e now) }

/-- The office after a task that was woken has looked again. -/
def resume (o : Office) (w : Wake) : Office :=
  { desk := o.desk.resume w
    held := (o.desk.pool.rouse w).1.toList.map (fun c => (w.service, c)) ++ o.held }

/-- What can happen at an office: a task starts an errand at some time, or a task that was woken
looks again.  Only what somebody holds is given back. -/
inductive Moves : Option (Errand × Float) → Office → Office → Prop
  | start (o : Office) (e : Errand) (now : Float)
      (own : ∀ s c, e = .release s c → (s, c) ∈ o.held) : Moves (some (e, now)) o (o.start e now)
  | resume (o : Office) (w : Wake) (woken : w ∈ o.desk.pool.woken) : Moves none o (o.resume w)

/-- One of the moves of an office. -/
def Step (o o' : Office) : Prop := ∃ what, Moves what o o'

/-- The offices that an office can get to. -/
abbrev Reaches : Office → Office → Prop := Relation.ReflTransGen Step

end Office

theorem Desk.pool_start (d : Desk) (e : Errand) (now : Float) :
    (d.start e now).pool = (e.perform d.pool d.tasks now).2 := by
  unfold Desk.start
  split <;> simp_all [Desk.finish]

theorem Desk.pool_resume (d : Desk) (w : Wake) : (d.resume w).pool = (d.pool.rouse w).2 := by
  unfold Desk.resume
  split <;> simp_all [Desk.finish]

theorem Pool.woken_rouse (p : Pool) (w : Wake) : (p.rouse w).2.woken = p.woken.erase w := by
  unfold Pool.rouse Pool.lookAgain
  split
  · next htake =>
      obtain ⟨q, -, ⟨-, -, rfl⟩ | ⟨c, rest, -, -, rfl⟩⟩ := Pool.take_cases htake <;> rfl
  · split
    · next hawait =>
        obtain ⟨q, -, rfl⟩ := Pool.await_cases hawait
        rfl
    · rfl

/-- The tasks that were woken look again, one after the other. -/
theorem Office.reaches_resume {ws : List Wake} {d : Desk} (h : d.pool.woken = ws)
    (held : List (String × Channel)) :
    ∃ held', Reaches { desk := d, held := held }
      { desk := ws.foldl Desk.resume d, held := held' } := by
  induction ws generalizing d held with
  | nil => exact ⟨held, .refl⟩
  | cons w ws ih =>
      have hmem : w ∈ d.pool.woken := by simp [h]
      have hwoken : (d.resume w).pool.woken = ws := by
        rw [Desk.pool_resume, Pool.woken_rouse, h, List.erase_cons_head]
      obtain ⟨held', hrest⟩ := ih hwoken _
      exact ⟨held', .head ⟨none, .resume _ w hmem⟩ hrest⟩

/-- **An errand that is run to its end** is started, and then the tasks that it woke look again. -/
theorem Office.reaches_run (d : Desk) {held : List (String × Channel)} (e : Errand) (now : Float)
    (own : ∀ s c, e = .release s c → (s, c) ∈ held) :
    ∃ held', Reaches { desk := d, held := held } { desk := d.run e now, held := held' } := by
  obtain ⟨held', hrest⟩ := reaches_resume (d := d.start e now) rfl _
  exact ⟨held', .head ⟨_, .start _ e now own⟩ hrest⟩

namespace Router

/-- What can happen at a router: a request is taken in, the first in line gets its turn, the one
whose turn it is looks again, a worker answers or fails, the channels are opened, or time passes. -/
inductive Step : Router → Router → Prop
  | takeIn (r : Router) (q : Inquiry) : Step r (r.takeIn q)
  | next (r : Router) : Step r r.next
  | lookAgain (r : Router) : Step r r.lookAgain
  | conclude (r : Router) (call : Nat) (reply : Option String) : Step r (r.conclude call reply).2
  | openChannels (r : Router) : Step r r.openChannels
  | pass (r : Router) (seconds : Float) : Step r { r with clock := r.clock.pass seconds }

/-- The routers that a router can get to. -/
abbrev Reaches : Router → Router → Prop := Relation.ReflTransGen Step

/-- The runs of a router, with the routers that it has been before. -/
inductive Run (start : Router) : List Router → Router → Prop
  | start : Run start [] start
  | step {past : List Router} {r r' : Router} (before : Run start past r) (move : Step r r') :
      Run start (past ++ [r]) r'

/-- A run leads to where it ends. -/
theorem Run.reaches {start r : Router} {past : List Router} (h : Run start past r) :
    start.Reaches r := by
  induction h with
  | start => exact .refl
  | step _ move ih => exact .tail ih move

/-- Whatever is reached is reached by a run. -/
theorem Reaches.exists_run {start r : Router} (h : start.Reaches r) : ∃ past, Run start past r := by
  induction h with
  | refl => exact ⟨[], .start⟩
  | tail _ move ih =>
      obtain ⟨past, before⟩ := ih
      exact ⟨_, .step before move⟩

/-- Resuming those who were woken is a way to go on. -/
theorem reaches_resume (r : Router) : r.Reaches r.resume := by
  have hturns : ∀ (line : List Job) (r : Router), r.Reaches (line.foldl (fun r _ => r.next) r) := by
    intro line
    induction line with
    | nil => exact fun r => .refl
    | cons job line ih => exact fun r => .head (.next r) (ih r.next)
  exact .head (.lookAgain r) (hturns r.line r.lookAgain)

/-- **A request that is taken as far as possible.** -/
theorem reaches_accept (r : Router) (q : Inquiry) : r.Reaches (r.accept q) :=
  .head (.takeIn r q) (reaches_resume _)

/-- **An answer that is taken as far as possible.** -/
theorem reaches_answer (r : Router) (call : Nat) (reply : Option String) :
    r.Reaches (r.answer call reply).2 :=
  .head (.conclude r call reply) (reaches_resume _)

/-- **The start of service**, once the detection service has been added. -/
theorem reaches_start (r : Router) (env : Environment) :
    Reaches { r with
      pool := r.pool.add detectionService (Settings.serviceHost env)
        (Settings.servicePortList env) } (r.start env) :=
  .head (.openChannels _) (reaches_resume _)

end Router

end DronePilot.Service
