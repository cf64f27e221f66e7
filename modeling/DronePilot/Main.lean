import DronePilot.Chat.Launch
import DronePilot.Document.Writer

/-!
# The command line

Starts the chat page with the options given, in a world that is only recorded: what would be done to
the robot and on the web is printed, an event to a line.  The page is closed after one second.
-/

namespace DronePilot.Chat

/-- An event as a line. -/
def eventLine (e : Event) : String :=
  (Document.list (.text e.name :: e.details)).write

/-- A robot of a kind. -/
def newRobot : Robot.Kind → Robot
  | .virtual => .virtual {}
  | .tello => .tello {}
  | .gear => .gear {}

/-- The variables of the environment that matter. -/
def settingNames : List String :=
  ["VISION_SERVICE_IP", "YOLO_SERVICE_PORT", "ROUTER_SERVICE_PORT"]

/-- The settings in the environment of the program. -/
def readEnvironment : IO Environment :=
  settingNames.filterMapM fun name => do
    return (← IO.getEnv name).map fun value => (name, value)

/-- Makes and runs a page: whether that went well, and the events. -/
def launch (o : Options) (env : Environment) : Bool × List Event :=
  match makePage (newRobot o.robot) o.link env with
  | (.error _, made) => (false, made)
  | (.ok page, made) =>
    let (outcome, page) := page.run 1
    (outcome.isOk, made ++ page.pilot.sight.scene.log)

end DronePilot.Chat

open DronePilot.Chat in
/-- Starts the chat page. -/
def main (arguments : List String) : IO UInt32 := do
  match Options.read arguments with
  | .error .help =>
    IO.print helpText
    return 0
  | .error (.complaint reason) =>
    IO.eprint (complaintText reason)
    return 2
  | .ok options =>
    let (ok, events) := launch options (← readEnvironment)
    for e in events do
      IO.println (eventLine e)
    return if ok then 0 else 1
