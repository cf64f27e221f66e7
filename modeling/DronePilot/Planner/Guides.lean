/-!
# Guides for the language model

General advice that every prompt for a plan contains, a paragraph to a line.
-/

namespace DronePilot.Planner

/-- The paragraphs of the advice. -/
def guideParagraphs : List String :=
  ["Handling Typos and Ambiguous Language: When encountering typos or vague language in " ++
      "user inputs, strive to clarify and correct these ambiguities. If a typo is evident, " ++
      "adjust the input to reflect the most likely intended meaning. For vague or unclear " ++
      "expressions, seek additional information from the user by returning a question to " ++
      "the user.",
    "Analytical Scene and Task Assessment: Evaluate the scene and task critically. If a " ++
      "specific condition or requirement is clearly deduced from the scene description, " ++
      "generate the corresponding action directly.",
    "Relevance to Current Scene: When considering tasks, assess their relevance to the " ++
      "current scene. If a task does not pertain to the existing scene, disregard any " ++
      "details from the current scene in formulating your response.",
    "Extraction of Key Information: Extract 'object_name' arguments or answers to " ++
      "questions primarily from the 'scene description'. If the necessary information is " ++
      "not present in the current scene, especially when the user asks the robot to move " ++
      "first or check somewhere else, use the probe 'p,' followed by the 'question', to " ++
      "determine the 'object_name' or answer subsequently.",
    "Handling Replan: When previous response and execution status are provided, it means " ++
      "part of the task has been executed. In this case, the system should replan the " ++
      "remaining task based on the current scene and the previous response.",
    "Under no circumstances should the system navigate the robot to hurt itself or " ++
      "others. If the task involves potential harm, the system should refuse to execute " ++
      "the task and provide a suitable explanation to the user."]

/-- The advice as it stands in a prompt. -/
def guides : String :=
  String.join (guideParagraphs.map fun p => p ++ "\n")

end DronePilot.Planner
