import DronePilot.Robot.Maneuver
import DronePilot.Skill.Set
import DronePilot.Vision.Sight

/-!
# Abilities

What the pilot can do itself, as basic skills for plans: moving the robot, looking, asking the
language model, and a few services to the user.  Two composed skills for finding objects stand above
them.
-/

namespace DronePilot.Pilot

open DronePilot.Robot DronePilot.Vision

/-- Something that the pilot can do. -/
inductive Ability where
  | move (d : Direction)
  | turn (t : Turn)
  | delay
  | look (q : Sight.Question)
  | probe
  | log
  | takePicture
  | replan
  | approach
  | time
deriving Repr, DecidableEq

namespace Ability

/-- All abilities, in the order in which they are listed. -/
def all : List Ability :=
  Direction.all.map move ++ Turn.all.map turn ++ [delay] ++ Sight.Question.all.map look ++
    [probe, log, takePicture, replan, approach, time]

/-- The name of the skill. -/
def name : Ability → String
  | move d => d.command
  | turn t => t.command
  | delay => "delay"
  | look .distance => "object_dis"
  | look q => q.name
  | probe => "probe"
  | log => "log"
  | takePicture => "take_picture"
  | replan => "re_plan"
  | approach => "goto"
  | time => "time"

/-- What is said about the skill. -/
def description : Ability → String
  | move d => "Move " ++ d.word ++ " by a distance"
  | turn .clockwise => "Rotate clockwise/right by certain degrees"
  | turn .counterclockwise => "Rotate counterclockwise/left by certain degrees"
  | delay => "Wait for specified seconds"
  | look .visible => "Check the visibility of target object"
  | look (.measure .x) => "Get object's X-coordinate in (0,1)"
  | look (.measure .y) => "Get object's Y-coordinate in (0,1)"
  | look (.measure .width) => "Get object's width in (0,1)"
  | look (.measure .height) => "Get object's height in (0,1)"
  | look .distance => "Get object's distance in cm"
  | probe => "Probe the LLM for reasoning"
  | log => "Output text to console"
  | takePicture => "Take a picture"
  | replan => "Replanning"
  | approach => "goto the object"
  | time => "Get current execution time"

/-- What the skill has to be given. -/
def parameters : Ability → List Parameter
  | move _ => [{ name := "distance", kind := .int }]
  | turn _ => [{ name := "degrees", kind := .int }]
  | delay => [{ name := "seconds", kind := .float }]
  | look _ => [{ name := "object_name", kind := .text }]
  | probe => [{ name := "question", kind := .text }]
  | log => [{ name := "text", kind := .text }]
  | approach => [{ name := "object_name[*x-value]", kind := .text }]
  | takePicture | replan | time => []

/-- The ability that a skill stands for. -/
def named? (name : String) : Option Ability :=
  all.find? fun a => a.name == name

/-- The ability as a skill, but for its short name. -/
def skill (a : Ability) : String × (String → Skill) :=
  (a.name, fun short =>
    .basic
      { name := a.name, abbreviation := short, description := a.description
        parameters := a.parameters })

end Ability

/-- A composed skill by its name, description and definition, but for its short name. -/
def composed (name description definition : String) : String × (String → Skill) :=
  (name, fun short =>
    .composed
      { name := name, abbreviation := short, definition := definition, description := description })

/-- Turning around until an object is in sight. -/
def scan : String × (String → Skill) :=
  composed "scan" "Rotate to find object $1 when it's *not* in current scene"
    "8\x7b?iv($1)==True\x7b->True\x7dtc(45)\x7d->False;"

/-- Turning around until the language model finds that something in sight fits a description. -/
def scanAbstract : String × (String → Skill) :=
  composed "scan_abstract"
    "Rotate to find an abstract object by a description $1 when it's *not* in current scene"
    "8\x7b_1=p($1);?_1!=False\x7b->_1\x7dtc(45)\x7d->False;"

/-- All skills of the pilot: the abilities in set 0, the composed skills in set 1. -/
def skills : Except Fault Collection :=
  Collection.ofSkills (Ability.all.map Ability.skill) [scan, scanAbstract]

end DronePilot.Pilot
