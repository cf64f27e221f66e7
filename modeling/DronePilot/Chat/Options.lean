import DronePilot.Text.Cut
import DronePilot.Text.Quoted

/-!
# Options of the chat page

The options on the command line are flags.  A flag may be cut short as long as it is clear which one is
meant, and takes no value.  What is not a flag is not understood; that is found out after all flags
have been read, so asking for help comes first.
-/

namespace DronePilot.Chat

open DronePilot.Text

/-- The flags. -/
inductive Flag where
  | help
  | virtualRobot
  | web
  | gear
deriving Repr, DecidableEq

/-- The spellings of a flag. -/
def Flag.spellings : Flag → List String
  | help => ["-h", "--help"]
  | virtualRobot => ["--use_virtual_robot"]
  | web => ["--use_http"]
  | gear => ["--gear"]

/-- All flags. -/
def Flag.all : List Flag := [help, virtualRobot, web, gear]

/-- All spellings with the flags that they stand for. -/
def Flag.dictionary : List (String × Flag) :=
  all.flatMap fun f => f.spellings.map fun s => (s, f)

/-- The name of a flag in complaints. -/
def Flag.title (f : Flag) : String := "/".intercalate f.spellings

/-- What was asked for on the command line. -/
structure Options where
  virtualRobot : Bool := false
  web : Bool := false
  gear : Bool := false
deriving Repr, DecidableEq

/-- Why the command line is not followed. -/
inductive Refusal where
  /-- Help was asked for. -/
  | help
  | complaint (reason : String)
deriving Repr, DecidableEq

/-- The name of the program. -/
def programName : String := "typefly.py"

/-- How the program is used. -/
def usage : String :=
  "usage: " ++ programName ++ " [-h] [--use_virtual_robot] [--use_http] [--gear]\n"

/-- The help. -/
def helpText : String :=
  usage ++ "\noptions:\n" ++
    "  -h, --help           show this help message and exit\n" ++
    "  --use_virtual_robot\n" ++
    "  --use_http\n" ++
    "  --gear\n"

/-- The text of a complaint. -/
def complaintText (reason : String) : String :=
  usage ++ programName ++ ": error: " ++ reason ++ "\n"

/-- What a word on the command line is. -/
inductive Word where
  /-- A flag as it is spelled in full, what follows it in the same word, and whether an equals sign
  stands between them. -/
  | flag (f : Flag) (long : Bool) (rest : Option (Bool × List Char))
  | other

/-- The flags that a word may stand for, with the rest of the word. -/
def candidates (word : List Char) : List (String × Flag × Option (Bool × List Char)) :=
  match word with
  | '-' :: '-' :: _ =>
    let (start, rest) := match cutAt? '=' word with
      | some (start, rest) => (start, some (true, rest))
      | none => (word, none)
    (Flag.dictionary.filter fun e => start.isPrefixOf e.1.toList).map fun (s, f) => (s, f, rest)
  | '-' :: c :: tail =>
    Flag.dictionary.filterMap fun (s, f) =>
      if s.toList = ['-', c] then some (s, f, some (false, tail))
      else if word.isPrefixOf s.toList then some (s, f, none)
      else none
  | _ => []

/-- Whether a spelling is a long one. -/
def isLong (spelling : String) : Bool := "--".toList.isPrefixOf spelling.toList

/-- Reads a word. -/
def Word.read (word : String) : Except Refusal Word :=
  let s := word.toList
  if s.head? ≠ some '-' then .ok .other
  else
    match Flag.dictionary.lookup word with
    | some f => .ok (.flag f (isLong word) none)
    | none =>
      let exact := (cutAt? '=' s).bind fun (start, rest) =>
        (Flag.dictionary.lookup (String.ofList start)).map fun f =>
          Word.flag f (isLong (String.ofList start)) (some (true, rest))
      match exact, candidates s with
      | some w, _ => .ok w
      | none, [] => .ok .other
      | none, [(spelling, f, rest)] => .ok (.flag f (isLong spelling) rest)
      | none, several =>
        .error (.complaint ("ambiguous option: " ++ word ++ " could match " ++
          ", ".intercalate (several.map fun c => c.1)))

/-- Reads the words up to a double dash; what follows it is left as it is. -/
def readWords : List String → Except Refusal (List (String × Word))
  | [] => .ok []
  | "--" :: rest => .ok (("--", .other) :: rest.map fun w => (w, .other))
  | word :: rest => do
    let w ← Word.read word
    let ws ← readWords rest
    pure ((word, w) :: ws)

/-- Notes a flag. -/
def Options.set (o : Options) : Flag → Except Refusal Options
  | .help => .error .help
  | .virtualRobot => .ok { o with virtualRobot := true }
  | .web => .ok { o with web := true }
  | .gear => .ok { o with gear := true }

/-- The complaint about a value that a flag does not take. -/
def ignoredValue (f : Flag) (value : List Char) : Refusal :=
  .complaint ("argument " ++ f.title ++ ": ignored explicit argument " ++
    String.ofList (quoted value))

/-- Reads what follows a short flag in its word: more short flags, up to a character that is none.  A
flag of the word that is given a value is complained about. -/
def readCluster (f : Flag) (equals : Bool) : List Char → Except Refusal Unit
  | [] => .error (ignoredValue f [])
  | c :: rest =>
    if equals || c = '-' then .error (ignoredValue f (c :: rest))
    else
      match Flag.dictionary.lookup (String.ofList ['-', c]), rest with
      | none, _ | some _, [] => .ok ()
      | some g, '=' :: value => readCluster g true value
      | some g, rest => readCluster g false rest

/-- Notes the flag of a word with what follows it in the word. -/
def Options.note (o : Options) (f : Flag) (long : Bool) (rest : Option (Bool × List Char)) :
    Except Refusal Options :=
  match rest with
  | none => o.set f
  | some (equals, value) =>
    if long then .error (ignoredValue f value)
    else do
      readCluster f equals value
      o.set f

/-- Notes the flags in order and collects the words that are not understood. -/
def noteAll : List (String × Word) → Options → Except Refusal (List String × Options)
  | [], o => .ok ([], o)
  | (word, .other) :: rest, o => do
    let (words, o) ← noteAll rest o
    pure (word :: words, o)
  | (_, .flag f long value) :: rest, o => do
    let o ← o.note f long value
    noteAll rest o

/-- The options on a command line. -/
def Options.read (arguments : List String) : Except Refusal Options := do
  let words ← readWords arguments
  let (unknown, o) ← noteAll words {}
  if unknown.isEmpty then pure o
  else throw (.complaint ("unrecognized arguments: " ++ " ".intercalate unknown))

end DronePilot.Chat
