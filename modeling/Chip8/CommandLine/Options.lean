import Chip8.Text.Integer

/-!
# Chip8.CommandLine.Options

Splitting the words of a command line into options and arguments. Options may stand anywhere; the
word `--` ends them. A short option may share its word with others and with its value, a long one
takes its value after an equals sign, and either takes it from the next word.
-/

namespace Chip8
namespace CommandLine

/-- A spelling of an option. -/
structure Spelling (ι : Type) where
  text : String
  option : ι
  takesValue : Bool

/-- Why the words of a command line are refused. -/
inductive UsageError where
  | unknownOption (name : String)
  | missingValue (name : String)
  | unexpectedValue (name : String)
  | badInteger (name value : String)
  | outOfRange (name value : String) (least : Int)
  | missingArgument (name : String)
  | extraArgument (word : String)
  | noSuchFile (name path : String)
  | isDirectory (name path : String)
  /-- No system takes a path with a null character. -/
  | nullCharacter
  deriving DecidableEq, Repr

def UsageError.message : UsageError → String
  | unknownOption name => "No such option: " ++ name
  | missingValue name => "Option '" ++ name ++ "' requires an argument."
  | unexpectedValue name => "Option '" ++ name ++ "' does not take a value."
  | badInteger name value =>
    "Invalid value for '" ++ name ++ "': '" ++ value ++ "' is not a valid integer."
  | outOfRange name value least =>
    "Invalid value for '" ++ name ++ "': " ++ value ++ " is not in the range x>=" ++
      toString least ++ "."
  | missingArgument name => "Missing argument '" ++ name ++ "'."
  | extraArgument word => "Got unexpected extra argument (" ++ word ++ ")"
  | noSuchFile name path =>
    "Invalid value for '" ++ name ++ "': File '" ++ path ++ "' does not exist."
  | isDirectory name path =>
    "Invalid value for '" ++ name ++ "': File '" ++ path ++ "' is a directory."
  | nullCharacter => "embedded null byte"

/-- Options and arguments found so far, the latest first. -/
structure Words (ι : Type) where
  given : List (ι × String) := []
  arguments : List String := []
  /-- An option that waits for the next word as its value. -/
  pending : Option (Spelling ι) := none
  /-- All further words are arguments. -/
  ended : Bool := false

namespace Words

variable {ι α : Type}

def give (ws : Words ι) (option : ι) (value : String) : Words ι :=
  { ws with given := (option, value) :: ws.given }

def lookup (table : List (Spelling ι)) (text : String) : Except UsageError (Spelling ι) :=
  match table.find? fun s => s.text = text with
  | some s => .ok s
  | none => .error (.unknownOption text)

/-- The letters of a word behind its dash. -/
def readShort (table : List (Spelling ι)) (ws : Words ι) :
    List Char → Except UsageError (Words ι)
  | [] => .ok ws
  | c :: rest => do
    let s ← lookup table (String.ofList ['-', c])
    if s.takesValue then
      return if rest.isEmpty then { ws with pending := some s }
        else ws.give s.option (String.ofList rest)
    else readShort table (ws.give s.option "") rest

/-- A word that begins with two dashes. -/
def readLong (table : List (Spelling ι)) (ws : Words ι) (word : List Char) :
    Except UsageError (Words ι) := do
  let s ← lookup table (String.ofList (word.takeWhile (· ≠ '=')))
  match word.dropWhile (· ≠ '='), s.takesValue with
  | [], true => return { ws with pending := some s }
  | [], false => return ws.give s.option ""
  | _ :: value, true => return ws.give s.option (String.ofList value)
  | _ :: _, false => throw (.unexpectedValue s.text)

def readWord (table : List (Spelling ι)) (ws : Words ι) (word : String) :
    Except UsageError (Words ι) :=
  match ws.pending with
  | some s => .ok { ws.give s.option word with pending := none }
  | none =>
    if ws.ended then .ok { ws with arguments := word :: ws.arguments }
    else
      match word.toList with
      | ['-', '-'] => .ok { ws with ended := true }
      | '-' :: '-' :: _ => readLong table ws word.toList
      | '-' :: c :: rest => readShort table ws (c :: rest)
      | _ => .ok { ws with arguments := word :: ws.arguments }

/-- Reads all words; the answer lists options and arguments in their order. -/
def read (table : List (Spelling ι)) (words : List String) : Except UsageError (Words ι) := do
  let ws ← words.foldlM (readWord table) {}
  match ws.pending with
  | some s => throw (.missingValue s.text)
  | none => return { ws with given := ws.given.reverse, arguments := ws.arguments.reverse }

variable [DecidableEq ι]

/-- The values that an option was given, in their order. -/
def values (ws : Words ι) (option : ι) : List String :=
  ws.given.filterMap fun (o, value) => if o = option then some value else none

/-- Of several values the last counts. -/
def value? (ws : Words ι) (option : ι) : Option String :=
  (ws.values option).getLast?

def has (ws : Words ι) (option : ι) : Bool :=
  (ws.value? option).isSome

/-- The option of a set that was given first. -/
def first? (ws : Words ι) (options : List ι) : Option ι :=
  (ws.given.map Prod.fst).find? options.contains

/-- An integer value, bounded below if `least` says so. -/
def integer? (ws : Words ι) (option : ι) (name : String) (least : Option Int) :
    Except UsageError (Option Int) :=
  match ws.value? option with
  | none => .ok none
  | some value =>
    match Text.readInteger .decimal value with
    | none => .error (.badInteger name value)
    | some n =>
      match least with
      | some low => if n < low then .error (.outOfRange name value low) else .ok (some n)
      | none => .ok (some n)

/-- Takes up the options in the order in which they were given. -/
def takeOptions (ws : Words ι) (take : α → ι → Except UsageError α) (start : α) :
    Except UsageError α :=
  ws.given.foldlM (fun a (option, _) => take a option) start

/-- The only argument, read before a further one is refused. -/
def onlyArgument (ws : Words ι) (name : String) (read : String → Except UsageError α) :
    Except UsageError α :=
  match ws.arguments with
  | [] => .error (.missingArgument name)
  | [word] => read word
  | word :: extra :: _ => do
    let _ ← read word
    throw (.extraArgument extra)

end Words
end CommandLine
end Chip8
