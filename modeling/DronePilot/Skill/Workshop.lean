import DronePilot.Skill.Rehearsal

/-!
# The workshop

Skill sets are built and tried out in a workshop: sets are created, skills are added, looked up,
described, removed and run.  Basic skills that are run answer from scripts.
-/

namespace DronePilot.Skill

/-- The sets under construction and the world in which their skills are tried out. -/
structure Workshop where
  collection : Collection := {}
  world : Rehearsal := {}

/-- What running a skill comes to: the result of a basic skill, or the plan of a composed one. -/
inductive Trial where
  | result (r : Result)
  | plan (text : List Char)

namespace Workshop

/-- A workshop with basic skills and their scripts in set 0 and composed skills above them in set 1. -/
def ofSkills (basic : List ((String × (String → Skill)) × List Result))
    (composed : List (String × (String → Skill))) : Except Fault Workshop := do
  let c ← Collection.ofSkills (basic.map Prod.fst) composed
  let shorts := (c.skills 0).values.map Skill.abbreviation
  pure
    { collection := c
      world := { scripts := Table.ofList (shorts.zip (basic.map Prod.snd)) } }

/-- Changes the collection unless the change fails. -/
def update (w : Workshop) (change : Collection → Except Fault Collection) :
    Except Fault Unit × Workshop :=
  match change w.collection with
  | .ok c => (.ok (), { w with collection := c })
  | .error f => (.error f, w)

/-- Adds a new skill to the set with a name.  The short name of the skill stays taken even if there is
no such set, or the skill cannot be added. -/
def add (w : Workshop) (set name : String) (make : String → Skill) (script : List Result) :
    Except Fault Unit × Workshop :=
  let c := w.collection
  let target := match c.find set with
    | .ok (i, _) => i
    | .error _ => c.sets.size
  match c.declare target name make with
  | (.error f, c) => (.error f, { w with collection := c })
  | (.ok short, c) =>
    let world := { w.world with scripts := w.world.scripts.insert short script }
    (.ok (), { collection := c, world := world })

/-- Removes a skill from the set with a name. -/
def remove (w : Workshop) (set name : String) : Except Fault Unit × Workshop :=
  w.update fun c => do
    let (i, _) ← c.find set
    c.remove i name

/-- The skills of the set with a name. -/
def skills (w : Workshop) (set : String) : Except Fault Skills := do
  let (_, s) ← w.collection.find set
  pure s.skills

/-- The skill with a name in a set; its short name does not count. -/
def find (w : Workshop) (set name : String) : Except Fault Skill := do
  match (← w.skills set).find? name with
  | some s => pure s
  | none => throw .noSuchKey

/-- The skill with a name or a short name in a set. -/
def lookup (w : Workshop) (set name : String) : Except Fault (Option Skill) := do
  pure ((← w.skills set).lookup w.collection.short name)

/-- Runs a skill of a set. -/
def run (w : Workshop) (set name : String) (arguments : List Value) : Except Fault Trial × Workshop :=
  match w.find set name with
  | .error f => (.error f, w)
  | .ok (.composed s) => (Trial.plan <$> s.expand arguments, w)
  | .ok (.basic s) =>
    match s.arguments arguments with
    | .error f => (.error f, w)
    | .ok arguments =>
      let (answer, world) := Rehearsal.answer s arguments w.world
      (.ok (.result answer), { w with world := world })

end Workshop

end DronePilot.Skill
