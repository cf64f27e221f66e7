import DronePilot.Planner.Examples
import DronePilot.Planner.Guides

/-!
# Prompts

What the language model is asked: a plan for a task, or the answer to a question about the scene.
-/

namespace DronePilot.Planner

/-- What a prompt for a plan depends on. -/
structure PlanQuery where
  /-- The composed skills, one to a line. -/
  highSkills : String
  /-- The basic skills, one to a line. -/
  lowSkills : String
  /-- What is in sight. -/
  scene : String
  task : String
  /-- What has been done already. -/
  history : String
deriving Repr

/-- The prompt for a plan. -/
def PlanQuery.prompt (q : PlanQuery) : String :=
  "You are a robot pilot and you should follow the user's instructions to generate a " ++
    "MiniSpec plan to fulfill the task or give advice on user's input if it's not clear or " ++
    "not reasonable.\n" ++
    "\n" ++
    "Your response should carefully consider the 'system skills description', the 'scene " ++
    "description', the 'task description', and both the 'previous response' and the " ++
    "'execution status' if they are provided.\n" ++
    "The 'system skills description' describes the system's capabilities which include " ++
    "low-level and high-level skills. Low-level skills, while fixed, offer direct function " ++
    "calls to control the robot and acquire vision information. High-level skills, built " ++
    "with our language 'MiniSpec', are more flexible and can be used to build more complex " ++
    "skills. Whenever possible, please prioritize the use of high-level skills, invoke " ++
    "skills using their designated abbreviations, and ensure that 'object_name' refers to " ++
    "a specific type of object. If a skill has no argument, you can call it without " ++
    "parentheses.\n" ++
    "\n" ++
    "Description of the two skill sets:\n" ++
    "- High-level skills:\n" ++
    q.highSkills ++
    "\n" ++
    "- Low-level skills:\n" ++
    q.lowSkills ++
    "\n" ++
    "\n" ++
    "The 'scene description' is an object list of the current view, containing their names " ++
    "with ID, location, and size (location and size are floats between 0~1). This may not " ++
    "be useful if the task is about the environment outside the view.\n" ++
    "The 'task description' is a natural language sentence, describing the user's " ++
    "instructions. It may start with \"[A]\" or \"[Q]\". \"[A]\" sentences mean you should " ++
    "generate an execution plan for the robot. \"[Q]\" sentences mean you should use 'log' " ++
    "to show a literal answer at the end of the plan execution. Please carefully reason " ++
    "about the 'task description', you should interpret it and generate a detailed " ++
    "multi-step plan to achieve it as much as you can \n" ++
    "The 'execution history' is the actions have been taken from previous response. When " ++
    "they are provided, that means the robot is doing replanning, and the user wants to " ++
    "continue the task based on the task and history. You should reason about the " ++
    "'execution history' and generate a new response accordingly.\n" ++
    "\n" ++
    "Here are some extra guides for you to better understand the task and generate a " ++
    "better response:\n" ++
    guides ++
    "\n" ++
    "\n" ++
    "Here is a list of example 'response' for different 'scene description' and 'task " ++
    "description', and their explanations:\n" ++
    examplesText ++
    "\n" ++
    "\n" ++
    "Here is the 'scene description':\n" ++
    q.scene ++
    "\n" ++
    "\n" ++
    "Here is the 'task description':\n" ++
    q.task ++
    "\n" ++
    "\n" ++
    "Here is the 'execution history' (has value if replanning):\n" ++
    q.history ++
    "\n" ++
    "\n" ++
    "Please generate the response only with a single sentence of MiniSpec program.\n" ++
    "'response':"

/-- The mark of a task that asks for an action. -/
def actionMark : String := "[A] "

/-- A task with its mark.  A task that begins with a bracket has one already; any other asks for an
action. -/
def markTask (task : String) : String :=
  if task.toList.head? = some '[' then task else actionMark ++ task

/-- An example of a question about the scene. -/
structure QuestionExample where
  /-- What is in sight. -/
  scene : String
  question : String
  /-- The answer. -/
  output : String
deriving Repr

/-- The examples of questions. -/
def questionExamples : List QuestionExample :=
  [ { scene :=
        "[person x:0.59 y:0.55 width:0.81 height:0.91, bottle x:0.85 y:0.54 width:0.21 " ++
        "height:0.93]"
      question := "'Any drinkable target here?'"
      output := "bottle" },
    { scene := "[]"
      question := "'Any table in the room?'"
      output := "False" },
    { scene :=
        "[chair x:0.1 y:0.35 width:0.56 height:0.41, chair x:0.49 y:0.59 width:0.61 " ++
        "height:0.35]"
      question := "'How many chairs you can see?'"
      output := "2" },
    { scene :=
        "[bottle x:0.1 y:0.35 width:0.56 height:0.41, chair x:0.49 y:0.59 width:0.61 " ++
        "height:0.35]"
      question := "'Any edible target here?'"
      output := "False" },
    { scene :=
        "[chair x:0.18 y:0.5 width:0.43 height:0.7, chair x:0.6 y:0.3 width:0.08 " ++
        "height:0.09, book x:0.62 y:0.26 width:0.23 height:0.17]"
      question := "'Any chair with a laptop on it?'"
      output := "chair[0.6]" }]

/-- An example with its number, counted from one. -/
def QuestionExample.display (e : QuestionExample) (number : Nat) : String :=
  "Example " ++ toString number ++ ":\nScene Description:" ++ e.scene ++ "\nQuestion:" ++
    e.question ++ "\nOutput:" ++ e.output

/-- The prompt for the answer to a question about what is in sight. -/
def questionPrompt (scene question : String) : String :=
  "\"\"\"\n" ++
    "You are given a scene description and a question. You should output the answer to the " ++
    "question based on the scene description.\n" ++
    "The scene description contains listed objects with their respective names, locations, " ++
    "and sizes.\n" ++
    "The question is a string that asks about the scene or the objects in the scene.\n" ++
    "For yes-or-no questions, output with 'True' or 'False' only.\n" ++
    "For object identification, output the object's name (if there are multiple same " ++
    "objects, output the target one with x value). If the object is not in the list, " ++
    "output with 'False'.\n" ++
    "For counting questions, output the exact number of target objects.\n" ++
    "For general questions, output a brief, single-sentence answer.\n" ++
    "\n" ++
    "Input Format:\n" ++
    "Scene Description:[List of Objects with Attributes]\n" ++
    "Question:[A String]\n" ++
    "\n" ++
    "Output Format:\n" ++
    "[A String]\n" ++
    "\n" ++
    "Here are some examples:\n" ++
    "\n\n".intercalate (questionExamples.mapIdx fun i e => e.display (i + 1)) ++ "\n" ++
    "\"\"\"\n" ++
    "Scene Description:" ++
    scene ++
    "\n" ++
    "Question:" ++
    question ++
    "\n" ++
    "Please give the content of results only, don't include 'Output:' in the results."

end DronePilot.Planner
