import DronePilot.Chat.Options
import DronePilot.Chat.Page

/-!
# Starting the chat page

The options choose the robot and the way to the detection service.  The page is made with a pilot for
them and run.
-/

namespace DronePilot.Chat

/-- The robot that the options ask for. -/
def Options.robot (o : Options) : Robot.Kind :=
  if o.virtualRobot then .virtual else if o.gear then .gear else .tello

/-- The way to the detection service that the options ask for. -/
def Options.link (o : Options) : Detector.Link :=
  if o.web then .web else .direct

/-- A page with a pilot for a robot, and the events of making it. -/
def makePage (robot : Robot) (link : Detector.Link) (env : Environment) :
    Except Fault Page × List Event :=
  match Pilot.ofRobot robot link env with
  | .error f => (.error f, robot.madeEvents)
  | .ok pilot => (.ok { pilot := pilot }, robot.madeEvents ++ madeEvents)

end DronePilot.Chat
