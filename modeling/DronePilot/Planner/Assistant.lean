import DronePilot.Event

/-!
# The language model

Plans and judgements come from a language model, which is sent a prompt and answers with a text.  Each
request goes into the chat log.  One model is served by this computer, the others by their maker.
-/

namespace DronePilot.Planner

/-- The model that is asked unless another one is chosen. -/
def standardModel : String := "gpt-4"

/-- The model that this computer serves. -/
def localModel : String := "meta-llama/Meta-Llama-3-8B-Instruct"

/-- Where this computer serves a model. -/
def localModelAddress : String := "http://localhost:8000/v1"

/-- A way to the language models. -/
structure Assistant where
  temperature : Value := .float 0
  /-- The answers to come; an answer may be missing. -/
  replies : Script (Option String) := { answers := [] }
  chatLog : String := ""

namespace Assistant

/-- The answer when none is prepared. -/
def defaultReply : String := "True"

/-- What stands between the entries of the chat log. -/
def logSeparator : String := "\n---\n"

/-- How the answer of a model stands in the chat log: by the indentation it is written with. -/
def answerEntry : String := "\x7b2\x7d"

/-- The event of a request: where it goes, the model, the temperature, whether the answer is to be
streamed, and one message from the user. -/
def event (a : Assistant) (model : String) (stream : Bool) : Event :=
  { name := "llm"
    details := [if model = localModel then .text localModelAddress else .null, .text model,
      .value a.temperature, .bool stream, .int 1, .text "user"] }

/-- The entry of a request in the chat log.  A streamed answer is not logged. -/
def entry (prompt : String) (stream : Bool) : String :=
  prompt ++ logSeparator ++ if stream then "" else answerEntry ++ logSeparator

/-- Asks a model: the answer, and the event of the request. -/
def request (a : Assistant) (prompt model : String) (stream : Bool) :
    Option String × Event × Assistant :=
  (a.replies.current (some defaultReply), a.event model stream,
    { a with
      replies := a.replies.advance
      chatLog := a.chatLog ++ entry prompt stream })

end Assistant

end DronePilot.Planner
