import DronePilot.Text.Quoted
import DronePilot.Value.Order

/-!
# Documents

The data that the parts of the system exchange: values, lists and dictionaries.  A dictionary lists
its fields in the order in which their names first appeared.

What comes from outside is used without having been checked first, so each use of a document says
what goes wrong when the document does not have the form that the use needs.
-/

namespace DronePilot

/-- A value, a list or a dictionary. -/
inductive Document where
  | value (v : Value)
  | list (items : List Document)
  | dict (fields : List (String × Document))
deriving Repr, Inhabited

namespace Document

/-- Nothing. -/
def null : Document := value .nothing

/-- A text. -/
def text (s : String) : Document := value (.text s)

/-- A whole number. -/
def int (n : Int) : Document := value (.int n)

/-- A double. -/
def float (x : Float) : Document := value (.float x)

/-- A truth value. -/
def bool (b : Bool) : Document := value (.bool b)

/-- Sets a field: in its place if it is there already, at the end otherwise. -/
def setField (key : String) (d : Document) : List (String × Document) → List (String × Document)
  | [] => [(key, d)]
  | (k, old) :: rest => if k = key then (k, d) :: rest else (k, old) :: setField key d rest

/-- A field of a dictionary.  Only dictionaries have fields. -/
def field (key : String) : Document → Except Fault Document
  | dict fields =>
    match fields.lookup key with
    | some d => .ok d
    | none => .error .noSuchKey
  | value _ | list _ => .error .wrongKind

/-- A field of a dictionary, or a default if the dictionary does not have it.  Only dictionaries
have fields with defaults. -/
def fieldOr (d : Document) (key : String) (default : Document) : Except Fault Document :=
  match d with
  | dict fields => .ok ((fields.lookup key).getD default)
  | value _ | list _ => .error .noSuchPart

/-- What there is to go through in a document: the items of a list, the names in a dictionary, the
characters of a text. -/
def items : Document → Except Fault (List Document)
  | list ds => .ok ds
  | dict fields => .ok (fields.map fun f => text f.1)
  | value (.text s) => .ok (s.toList.map fun c => text (String.singleton c))
  | value _ => .error .wrongKind

/-- The value that a document is. -/
def toValue : Document → Except Fault Value
  | value v => .ok v
  | list _ | dict _ => .error .wrongKind

/-- A document counts as true unless it is empty or a value that does not. -/
def truthy : Document → Bool
  | value v => v.truthy
  | list ds => !ds.isEmpty
  | dict fields => !fields.isEmpty

mutual

/-- A document as it stands inside another one: text between quotation marks. -/
def displayInner : Document → String
  | value (.text s) => String.ofList (Text.quoted s.toList)
  | value v => v.display
  | list ds => "[" ++ displayItems ds ++ "]"
  | dict fields => "\x7b" ++ displayFields fields ++ "\x7d"

/-- The items of a list with commas between them. -/
def displayItems : List Document → String
  | [] => ""
  | [d] => d.displayInner
  | d :: rest => d.displayInner ++ ", " ++ displayItems rest

/-- The fields of a dictionary with commas between them. -/
def displayFields : List (String × Document) → String
  | [] => ""
  | [(key, d)] => String.ofList (Text.quoted key.toList) ++ ": " ++ d.displayInner
  | (key, d) :: rest =>
    String.ofList (Text.quoted key.toList) ++ ": " ++ d.displayInner ++ ", " ++ displayFields rest

end

/-- A document as a person reads it. -/
def display : Document → String
  | value v => v.display
  | d => d.displayInner

mutual

/-- Whether two documents are the same to a comparison.  The order of fields does not matter. -/
def same : Document → Document → Bool
  | value a, value b => a.same b
  | list ds, list es => sameItems ds es
  | dict fs, dict gs => fs.length == gs.length && sameFields fs gs
  | _, _ => false

/-- Whether two lists have the same items. -/
def sameItems : List Document → List Document → Bool
  | [], [] => true
  | d :: ds, e :: es => d.same e && sameItems ds es
  | _, _ => false

/-- Whether each field is the same in the other dictionary. -/
def sameFields : List (String × Document) → List (String × Document) → Bool
  | [], _ => true
  | (key, d) :: rest, gs =>
    (match gs.lookup key with
      | some e => d.same e
      | none => false) && sameFields rest gs

end

end Document

end DronePilot
