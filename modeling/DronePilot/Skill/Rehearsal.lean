import DronePilot.Plan.Evaluator

/-!
# Rehearsals

A plan can be rehearsed without a robot: every basic skill answers from a script, over and over,
and the calls are recorded with the arguments they were made with.  Scripts go by the short names
of the skills, which no two skills share.
-/

namespace DronePilot.Skill

open DronePilot.Plan

/-- The world of a rehearsal. -/
structure Rehearsal where
  scripts : Table String (List Result) := Table.empty
  /-- How often each skill was run. -/
  runs : Table String Nat := Table.empty
  /-- The calls made, oldest first. -/
  calls : List (String × List Value) := []

/-- The answer of a script at its `n`-th use; a skill without a script gives nothing. -/
def scriptedAnswer (script : List Result) (n : Nat) : Result :=
  (script[n % script.length]?).getD .none

/-- Runs a basic skill: records the call and answers from the script. -/
def Rehearsal.answer (s : BasicSkill) (arguments : List Value) (r : Rehearsal) : Result × Rehearsal :=
  let n := (r.runs.find? s.abbreviation).getD 0
  let script := (r.scripts.find? s.abbreviation).getD []
  (scriptedAnswer script n,
    { r with
      runs := r.runs.insert s.abbreviation (n + 1)
      calls := r.calls ++ [(s.name, arguments)] })

/-- Runs a basic skill for a plan, which never halts it. -/
def Rehearsal.perform (s : BasicSkill) (arguments : List Value) (r : Rehearsal) :
    Except Halt Result × Rehearsal :=
  let (result, r) := Rehearsal.answer s arguments r
  (.ok result, r)

/-- The toolkit of a rehearsal with the skills of a collection. -/
def rehearsalKit (c : Collection) : Toolkit Rehearsal :=
  { low := c.skills 0, high := c.skills 1, short := c.short, perform := Rehearsal.perform }

end DronePilot.Skill
