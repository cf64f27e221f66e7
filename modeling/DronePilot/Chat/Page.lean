import DronePilot.Pilot.Capture
import DronePilot.Pilot.Mission

/-!
# The chat page

The user talks to the pilot on a web page, which also shows what the camera sees.  A message is a task
for the pilot; what the pilot has to say is shown as it comes.
-/

namespace DronePilot.Chat

open DronePilot.Pilot DronePilot.Planner

/-- The title of the page. -/
def titleText : String :=
  "<h1>🪽 TypeFly: Power the Drone with Large Language Model</h1>"

/-- Where the camera's view is served. -/
def viewPath : String := "/drone-pov/"

/-- The part of the page with the camera's view. -/
def viewText : String :=
  "<h2>Drone POV</h2>\n<div>\n    <img src=\"http://localhost:50000" ++ viewPath ++
    "\" alt=\"drone-pov\" style=\"border-radius: 10px; object-fit: contain;\">\n</div>"

/-- The page with the pilot behind it. -/
structure Page where
  pilot : Pilot
  /-- The page is to be closed. -/
  closing : Bool := false
  /-- The language model of this computer is in use. -/
  localModel : Bool := false
  /-- The camera's view is being served. -/
  serving : Bool := false

/-- The events of making a page. -/
def madeEvents : List Event :=
  [{ name := "HTML", details := [.text titleText] }, { name := "HTML", details := [.text viewText] }]

/-- How the answer to a message ends. -/
inductive Ending where
  | silent
  | said (s : String)
  /-- More messages are waited for that will never come; the pilot may have halted. -/
  | stall (cause : Option Halt)

/-- The answer to a message: what was shown, each time in full, and the pictures. -/
structure Answer where
  shown : List String := []
  pictures : List String := []
  ending : Ending

/-- The sign at the end of a message that goes on in the same line. -/
def continuation : List Char := ['\\', '\\']

/-- What a text adds to what is shown. -/
def shownText (s : String) : String :=
  let gap := if "[LOG]".toList.isPrefixOf s.toList then "\n" else ""
  let body :=
    if continuation.isSuffixOf s.toList then
      String.ofList (s.toList.reverse.dropWhile (· == '\\')).reverse
    else s ++ "\n"
  gap ++ body

/-- Shows messages after what has been shown already, up to the last of an answer.  Otherwise the
answer stalls. -/
def showMessages (cause : Option Halt) : String → List Message → Answer
  | _, [] => { ending := .stall cause }
  | shown, .picture file :: rest =>
    let a := showMessages cause shown rest
    { a with shown := shown :: a.shown, pictures := file :: a.pictures }
  | shown, .text s :: rest =>
    if s = endMessage then { ending := .said "Command Complete!" }
    else
      let shown := shown ++ shownText s
      let a := showMessages cause shown rest
      { a with shown := shown :: a.shown }

/-- Why the pilot will say no more. -/
def haltOf : Except Breakdown Unit → Option Halt
  | .ok () => none
  | .error (.fault f) => some (.fault f)
  | .error (.stall h) => some h

/-- The message that closes the page. -/
def exitCommand : String := "exit"

namespace Page

/-- Closes the page. -/
def close (page : Page) : Page :=
  { page with closing := true, pilot := page.pilot.stop }

/-- Answers a message. -/
def receive (page : Page) (text : String) : Answer × Page :=
  if text = exitCommand then ({ shown := ["Shutting down..."], ending := .silent }, page.close)
  else if text.isEmpty then ({ ending := .said "[WARNING] Empty command!]" }, page)
  else
    let (outcome, pilot) := carryOut text page.pilot
    let messages := pilot.mailbox.getD []
    (showMessages (haltOf outcome) "" messages,
      { page with pilot := { pilot with mailbox := pilot.mailbox.map fun _ => [] } })

/-- Changes between the language models. -/
def switchModel (page : Page) : Page :=
  let useLocal := !page.localModel
  let model := if useLocal then Planner.localModel else standardModel
  { page with localModel := useLocal, pilot := { page.pilot with model := model } }

/-- Does a duty of the pilot. -/
def direct {α : Type} (page : Page) (d : Duty α) : Except Fault α × Page :=
  let (r, pilot) := d.run.run page.pilot
  (r, { page with pilot := pilot })

/-- How long the page waits between two pictures of the camera's view. -/
def framePause : Float := 1 / 30

/-- Shows the camera's view until a number of pictures was shown or the page is closed: how many
pictures were shown. -/
def stream (page : Page) : Nat → Except Fault Nat × Page
  | 0 => (.ok 0, page)
  | n + 1 =>
    if page.closing then (.ok 0, page)
    else
      match page.direct (Pilot.view true) with
      | (.error f, page) => (.error f, page)
      | (.ok _, page) =>
        let page := if n = 0 then { page with closing := true } else page
        match page.direct (Duty.sleep (.float framePause)) with
        | (.error f, page) => (.error f, page)
        | (.ok (), page) =>
          match page.stream n with
          | (.error f, page) => (.error f, page)
          | (.ok shown, page) => (.ok (shown + 1), page)

/-- Serves the camera's view, on demand after opening the page again. -/
def serveView (page : Page) (reopen : Bool) (count : Nat) : Except Fault Nat × Page :=
  if !page.serving then (.error .noSuchKey, page)
  else
    let page := if reopen then { page with closing := false } else page
    let (_, page) := page.direct <| Duty.record
      { name := "Response", details := [.text "multipart/x-mixed-replace; boundary=frame"] }
    page.stream count

/-- The event of putting the page on the web. -/
def launchEvent : Event :=
  { name := "launch"
    details := [.dict [("show_api", .bool false), ("server_port", .int 50001),
      ("prevent_thread_lock", .bool true)]] }

/-- Waits, second by second, until something has waited a given number of times. -/
def idle (limit : Nat) : Nat → Duty Unit
  | 0 => pure ()
  | n + 1 => do
    Duty.sleep (.int 1)
    if (← get).waits < limit then idle limit n

/-- What is done until the page is closed: the robot is started and the page is served.  A page that is
closed already is served for a second. -/
def openUp (limit : Nat) (page : Page) : Except Fault Unit × Page :=
  match page.direct Pilot.startRobot with
  | (.error f, page) => (.error f, page)
  | (.ok (), page) =>
    { page with serving := true }.direct do
      Duty.record { name := "route", details := [.text viewPath] }
      Duty.record launchEvent
      idle (if page.closing then 0 else limit) (limit + 1)

/-- Runs the page.  It is closed, and the pilot stopped, once something has waited a given number of
times.  When it is closed the pictures that are still to be taken are taken, the robot is brought down,
and the pictures that were kept are deleted. -/
def run (page : Page) (count : Nat) : Except Fault Unit × Page :=
  let limit := page.pilot.waits + count
  let (outcome, page) := page.openUp limit
  let page := if limit ≤ page.pilot.waits then page.close else page
  match outcome with
  | .error f => (.error f, page)
  | .ok () =>
    let (_, page) := page.direct (capture (limit - page.pilot.waits))
    match page.direct Pilot.stopRobot with
    | (.error f, page) => (.error f, page)
    | (.ok (), page) => (.ok (), { page with pilot := { page.pilot with files := [] } })

end Page

end DronePilot.Chat
