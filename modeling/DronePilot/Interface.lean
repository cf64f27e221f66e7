import DronePilot.Fault

/-!
# What robots and skills have to offer

A robot or a skill can be supplied from outside.  It has to offer all operations of its interface;
one that leaves some out cannot be used.
-/

namespace DronePilot

/-- An operation, and how many arguments it takes. -/
structure Operation where
  name : String
  arity : Nat := 0
deriving Repr, DecidableEq

/-- The operations that have to be offered. -/
structure Interface where
  operations : List Operation
deriving Repr

namespace Interface

/-- What every robot has to offer. -/
def robot : Interface :=
  { operations :=
      [{ name := "connect" }, { name := "keep_active" }, { name := "takeoff" }, { name := "land" },
        { name := "start_stream" }, { name := "stop_stream" }, { name := "get_frame_reader" },
        { name := "move_forward", arity := 1 }, { name := "move_backward", arity := 1 },
        { name := "move_left", arity := 1 }, { name := "move_right", arity := 1 },
        { name := "move_up", arity := 1 }, { name := "move_down", arity := 1 },
        { name := "turn_ccw", arity := 1 }, { name := "turn_cw", arity := 1 }] }

/-- What every skill has to offer. -/
def skill : Interface :=
  { operations :=
      [{ name := "get_name" }, { name := "get_skill_description" }, { name := "get_argument" },
        { name := "__repr__" }, { name := "execute", arity := 1 }] }

/-- The names of the operations, sorted. -/
def names (i : Interface) : List String :=
  (i.operations.map Operation.name).mergeSort fun a b => !decide (b < a)

/-- Whether all operations are among those offered. -/
def isMetBy (i : Interface) (offered : List String) : Bool :=
  i.operations.all fun o => offered.contains o.name

/-- Takes something that offers operations into use, which is possible only if none is left out. -/
def accept (i : Interface) (offered : List String) : Except Fault Unit :=
  if i.isMetBy offered then .ok () else .error .wrongKind

/-- Calls an operation with a number of arguments.  The operations of an interface themselves do
nothing. -/
def call (i : Interface) (name : String) (count : Nat) : Except Fault Unit :=
  match i.operations.find? fun o => o.name == name with
  | none => .error .noSuchPart
  | some o => if o.arity = count then .ok () else .error .wrongKind

end Interface

end DronePilot
