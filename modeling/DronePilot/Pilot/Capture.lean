import DronePilot.Pilot.Basic

/-!
# The capture loop

While it is active the pilot takes a picture every tenth of a second and has it examined by the
detection service.  A service on this computer answers before the pilot goes on; a service elsewhere is
asked while the pilot waits for the next picture, and its failures go unnoticed.
-/

namespace DronePilot.Pilot

open DronePilot.Detector DronePilot.Vision

/-- How long the pilot waits between two pictures, in seconds. -/
def captureInterval : Float := 0.1

/-- A request in the record. -/
def requestEvent (address : String) : Request → Event
  | .direct method id conf _ _ => { name := "rpc", details := [.text method, id, .value conf] }
  | request => request.localEvent address

/-- The next answer of the detection service. -/
def nextDetection : Duty (Option String) := do
  let p ← get
  set { p with detections := p.detections.advance }
  pure (p.detections.current (some emptyReply))

/-- Shares a frame with what was detected in it. -/
def publish (frame : Frame) (result : Document) : Duty Unit :=
  Duty.changeScene fun s => s.share frame result

/-- Has a frame examined by a service on this computer. -/
def examineHere (frame : Frame) : Duty Unit := do
  let p ← get
  let (request, client) := p.client.ask frame localConf
  set { p with client := client }
  Duty.record (requestEvent client.address (← request))
  match ← nextDetection with
  | none => throw .wrongKind
  | some reply =>
    let p ← get
    let (heard, client) := p.client.hear reply
    set { p with client := client }
    match ← heard with
    | none => pure ()
    | some (parcel, result) => publish parcel.frame result

/-- Has a frame examined by a service elsewhere. -/
def examineElsewhere (frame : Frame) : Duty Unit := do
  let p ← get
  let picture ← frame.getPicture
  let (request, client) := p.client.submit frame picture.width picture.height p.client.link.conf
  set { p with client := client }
  Duty.record (requestEvent client.address (← request))
  match ← nextDetection with
  | none => modify fun p => { p with waiting := p.waiting + 1 }
  | some reply =>
    let p ← get
    let (received, client) := p.client.receive reply
    set { p with client := client }
    match ← received with
    | none => pure ()
    | some (frame, result) => publish frame result

/-- Waits between two pictures. -/
def pause : Duty Unit :=
  Duty.sleep (.float captureInterval)

/-- One round of the loop. -/
def captureOnce (hasReader : Bool) : Duty Unit := do
  discard (Duty.act .keepActive)
  if !hasReader then throw .noSuchPart
  let latest ← Duty.steer Robot.readFrame
  modify fun p => { p with latest := some latest }
  let frame ← Duty.steer Robot.readFrame
  if (← get).client.isLocal then
    examineHere frame
    pause
  else
    pause
    modify fun p => ((examineElsewhere frame).run.run p).2

/-- Goes on for some rounds at most, as long as the pilot is active.  It is stopped once something has
waited a given number of times. -/
def captureWhile (hasReader : Bool) (limit : Nat) : Nat → Duty Unit
  | 0 => pure ()
  | rounds + 1 => do
    if (← get).active then
      captureOnce hasReader
      modify fun p => if limit ≤ p.waits then p.stop else p
      captureWhile hasReader limit rounds

/-- The capture loop, which ends once something has waited a given number of times: every round waits
at least once, so there is no need for more rounds than that.  At the end the calls that have not been
answered are given up, and the robot comes down; the number of those calls is told. -/
def capture (count : Nat) : Duty Nat := do
  let hasReader ← Duty.steer Robot.openReader
  let limit := (← get).waits + count
  captureWhile hasReader limit count
  discard (Duty.act .stopStream)
  discard (Duty.act .land)
  let cancelled := (← get).waiting
  modify fun p => { p with waiting := 0 }
  pure cancelled

end DronePilot.Pilot
