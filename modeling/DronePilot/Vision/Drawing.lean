import DronePilot.Event
import DronePilot.Vision.Sighting

/-!
# Drawing what was seen

Objects are drawn onto a picture as blue frames with their names in red above.  A drawing is a list of
strokes, recorded as events; it may break off with a fault, and what was drawn before stays.
-/

namespace DronePilot.Vision

/-- Drawing onto a picture. -/
abbrev Drawing := ExceptT Fault (StateM (List Event))

namespace Drawing

/-- Draws a stroke. -/
def stroke (name : String) (details : List Document) : Drawing Unit :=
  modify fun events => events ++ [{ name := name, details := details }]

/-- The size of the letters, which is also how far above its frame a name stands. -/
def letterSize : Int := 50

/-- The width of the lines of a frame. -/
def lineWidth : Int := 4

/-- The letters. -/
def font : Document := .list [.text "Roboto-Medium.ttf", .int letterSize]

/-- The number of pixels that a part of the picture takes up. -/
def pixels (part : Float) (size : Nat) : Drawing Int :=
  (Value.float (part * Float.ofNat size)).toWhole

/-- Begins to draw onto a picture of a given size. -/
def begin (width height : Nat) : Drawing Unit :=
  stroke "Draw" [.list [.int width, .int height]]

/-- Draws a frame. -/
def frame (x1 y1 x2 y2 : Int) : Drawing Unit :=
  stroke "rectangle" [.list [.int x1, .int y1, .int x2, .int y2], .null, .text "blue", .int lineWidth]

/-- Writes a name above the corner of a frame. -/
def label (x y : Int) (name : Document) : Drawing Unit :=
  stroke "text" [.list [.int x, .int (y - letterSize)], name, .text "red", font]

/-- A coordinate of a box, in pixels. -/
def corner (box : Document) (key : String) (size : Nat) : Drawing Int := do
  let d ← box.field key
  let v ← d.toValue
  let x ← v.toReal
  pixels x size

/-- Draws an object as the detection service reports it. -/
def report (width height : Nat) (d : Document) : Drawing Unit := do
  let box ← d.field "box"
  let x1 ← corner box "x1" width
  let y1 ← corner box "y1" height
  let x2 ← corner box "x2" width
  let y2 ← corner box "y2" height
  frame x1 y1 x2 y2
  label x1 y1 (← d.field "name")

/-- Draws reports; there may be none to draw at all. -/
def reports (width height : Nat) (results : Document) : Drawing Unit :=
  match results with
  | .value .nothing => pure ()
  | results => do
    begin width height
    (← results.items).forM (report width height)

/-- Draws a sighting. -/
def sighting (width height : Nat) (s : Sighting) : Drawing Unit := do
  let x1 ← pixels (s.x - s.width / 2) width
  let y1 ← pixels (s.y - s.height / 2) height
  let x2 ← pixels (s.x + s.width / 2) width
  let y2 ← pixels (s.y + s.height / 2) height
  frame x1 y1 x2 y2
  label x1 y1 s.name

/-- Draws sightings, if there are any. -/
def sightings (width height : Nat) (ss : List Sighting) : Drawing Unit :=
  if ss.isEmpty then pure ()
  else do
    begin width height
    ss.forM (sighting width height)

end Drawing

/-- What a drawing comes to: how it ended, and its strokes. -/
def Drawing.draw (d : Drawing Unit) : Except Fault Unit × List Event :=
  d.run.run []

end DronePilot.Vision
