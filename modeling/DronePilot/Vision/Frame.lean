import DronePilot.Fault

/-!
# Frames

A frame is what the camera delivers at one time: a picture and, from some robots, a map of
distances.  A picture is a table of pixels, row by row.
-/

namespace DronePilot.Vision

/-- The colour of a point of a picture. -/
structure Pixel where
  red : Nat
  green : Nat
  blue : Nat
deriving Repr, DecidableEq, Inhabited

/-- A picture, from the top row down. -/
structure Picture where
  rows : List (List Pixel)
deriving Repr, DecidableEq, Inhabited

/-- The number of rows. -/
def Picture.height (p : Picture) : Nat := p.rows.length

/-- The number of pixels in a row. -/
def Picture.width (p : Picture) : Nat := (p.rows.headD []).length

/-- A black picture. -/
def Picture.black (width height : Nat) : Picture :=
  { rows := List.replicate height (List.replicate width { red := 0, green := 0, blue := 0 }) }

/-- Distances in millimetres, from the top row down. -/
abbrev DepthMap := List (List Int16)

/-- A picture with a map of distances.  A frame that was made from something else than a picture
has none until it is given one. -/
structure Frame where
  picture : Option Picture
  depth : Option DepthMap := none
deriving Repr, Inhabited

/-- The width of the pictures that the camera delivers. -/
def cameraWidth : Nat := 640

/-- The height of the pictures that the camera delivers. -/
def cameraHeight : Nat := 352

/-- The frame before the camera has delivered one: a black picture. -/
def Frame.blank : Frame :=
  { picture := some (.black cameraWidth cameraHeight) }

/-- What a frame is made from. -/
inductive FrameSource where
  | nothing
  | picture (p : Picture)
  /-- Something that is no picture. -/
  | other

/-- A frame made from something: without anything it has the picture of the blank frame. -/
def Frame.ofSource (source : FrameSource) (depth : Option DepthMap) : Frame :=
  match source with
  | .nothing => { Frame.blank with depth := depth }
  | .picture p => { picture := some p, depth := depth }
  | .other => { picture := none, depth := depth }

/-- The picture of a frame that has one. -/
def Frame.getPicture (f : Frame) : Except Fault Picture :=
  match f.picture with
  | some p => .ok p
  | none => .error .noSuchPart

end DronePilot.Vision
