import DronePilot.Skill.Abbreviation
import DronePilot.Skill.Definition

/-!
# Skill sets

Skills are kept in sets.  A set of composed skills stands above a set of basic ones, in which the
calls of its definitions are looked up.  All sets share one table of short names.
-/

namespace DronePilot

/-- The level of a skill set. -/
inductive Level where
  | low
  | high
deriving Repr, DecidableEq

/-- A level by its name. -/
def Level.ofName (name : String) : Except Fault Level :=
  if name = "low" then .ok .low else if name = "high" then .ok .high else .error .unknownLevel

/-- The skills of one set by name. -/
abbrev Skills := Table String Skill

namespace Skills

open Skill

/-- A skill by its name or by its short name. -/
def lookup (skills : Skills) (short : Abbreviations) (name : String) : Option Skill :=
  match skills.find? name with
  | some s => some s
  | none => (short.find? name).bind skills.find?

/-- Adds a skill whose name is new. -/
def add (skills : Skills) (s : Skill) : Except Fault Skills :=
  if skills.contains s.name then .error (.duplicateSkill s.name) else .ok (skills.insert s.name s)

/-- Adds a composed skill above a set of basic ones, with the parameters that follow from its
definition. -/
def addComposed (skills lower : Skills) (short : Abbreviations) (s : ComposedSkill) :
    Except Fault Skills := do
  if skills.contains s.name then throw (.duplicateSkill s.name)
  let find? name := (lower.lookup short name).or (skills.lookup short name)
  let parameters ← inferParameters find? s.definition
  skills.add (.composed { s with parameters := parameters, placed := true })

/-- Removes a skill that is there. -/
def remove (skills : Skills) (name : String) : Except Fault Skills :=
  if skills.contains name then .ok (skills.erase name) else .error (.unknownSkill name)

/-- The skills one to a line. -/
def display (skills : Skills) : String :=
  String.join (skills.values.map fun s => s.display ++ "\n")

end Skills

/-- A skill set.  The set below it is given by its number in the collection. -/
structure SkillSet where
  level : Level
  lower : Option Nat
  skills : Skills := Table.empty

/-- All skill sets, by number, the names that some of them have, and the short names of all
skills. -/
structure Collection where
  sets : Array SkillSet := #[]
  named : Table String Nat := Table.empty
  short : Skill.Abbreviations := Table.empty

namespace Collection

/-- The number and the content of the set with a name. -/
def find (c : Collection) (name : String) : Except Fault (Nat × SkillSet) :=
  match (c.named.find? name).bind fun i => (c.sets[i]?).map fun s => (i, s) with
  | some found => .ok found
  | none => .error .noSuchKey

/-- Makes a set and gives it a name, which the set of that name before it loses.  A set that is to
stand above a set that does not exist stands above none. -/
def create (c : Collection) (name : String) (level : String) (lower : Option String) :
    Except Fault Collection := do
  let level ← Level.ofName level
  pure { c with
    sets := c.sets.push { level := level, lower := lower.bind c.named.find? }
    named := c.named.insert name c.sets.size }

/-- Gives a set new skills. -/
def update (c : Collection) (i : Nat) (skills : Skills) : Collection :=
  { c with sets := c.sets.modify i fun s => { s with skills := skills } }

/-- Reserves a short name for a skill. -/
def abbreviate (c : Collection) (name : String) : Except Fault (String × Collection) := do
  let short ← Skill.abbreviate c.short name
  pure (short, { c with short := c.short.insert short name })

/-- Adds a skill to a set.  A composed skill in a set of the high level is placed above the set
below; in a set of the low level it stays without parameters. -/
def add (c : Collection) (i : Nat) (s : Skill) : Except Fault Collection :=
  match c.sets[i]? with
  | none => .error .noSuchKey
  | some set =>
    match set.level, s with
    | .high, .composed s =>
      if set.skills.contains s.name then .error (.duplicateSkill s.name)
      else
        match set.lower.bind fun j => c.sets[j]? with
        | none => .error .noLowerSet
        | some lower => c.update i <$> set.skills.addComposed lower.skills c.short s
    | _, s => c.update i <$> set.skills.add s

/-- Reserves a short name for a new skill and adds the skill to a set.  If it cannot be added, the
short name stays taken. -/
def declare (c : Collection) (i : Nat) (name : String) (skill : String → Skill) :
    Except Fault String × Collection :=
  match c.abbreviate name with
  | .error f => (.error f, c)
  | .ok (short, c) =>
    match c.add i (skill short) with
    | .error f => (.error f, c)
    | .ok c' => (.ok short, c')

/-- Declares skills in order, up to the first that cannot be added. -/
def declareAll (i : Nat) : List (String × (String → Skill)) → Collection → Except Fault Collection
  | [], c => .ok c
  | (name, skill) :: rest, c =>
    match c.declare i name skill with
    | (.error f, _) => .error f
    | (.ok _, c) => declareAll i rest c

/-- A collection of a set of basic skills, number 0, and a set of composed ones above it,
number 1. -/
def ofSkills (basic composed : List (String × (String → Skill))) : Except Fault Collection := do
  let c : Collection := { sets := #[{ level := .low, lower := none }, { level := .high, lower := some 0 }] }
  let c ← declareAll 0 basic c
  declareAll 1 composed c

/-- The skills of a set. -/
def skills (c : Collection) (i : Nat) : Skills :=
  match c.sets[i]? with
  | some set => set.skills
  | none => Table.empty

/-- Removes a skill from a set. -/
def remove (c : Collection) (i : Nat) (name : String) : Except Fault Collection :=
  match c.sets[i]? with
  | none => .error .noSuchKey
  | some set => c.update i <$> set.skills.remove name

end Collection

end DronePilot
