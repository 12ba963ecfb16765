import Chip8.CommandLine.Outcome
import Chip8.Engine
import Chip8.Settings

/-!
# Chip8.CommandLine.Failure

How a command ends that fails: its exit code and its last words.
-/

namespace Chip8
namespace CommandLine

inductive ExitCode where
  | success
  | runtimeError
  | invalidArguments
  | internalError
  deriving DecidableEq, Repr

namespace ExitCode

def all : List ExitCode :=
  [success, runtimeError, invalidArguments, internalError]

def name : ExitCode → String
  | success => "SUCCESS"
  | runtimeError => "RUNTIME_ERROR"
  | invalidArguments => "INVALID_ARGS"
  | internalError => "INTERNAL_ERROR"

def code : ExitCode → Nat
  | success => 0
  | runtimeError => 1
  | invalidArguments => 2
  | internalError => 3

end ExitCode

/-- What can go wrong in a command. -/
inductive Trouble where
  | machine (error : Error)
  /-- A value that was given cannot be used. -/
  | badValue (message : String)
  /-- A file is missing or may not be used. -/
  | noAccess (message : String)
  | unforeseen (message : String)
  deriving DecidableEq, Repr

namespace Trouble

def exitCode : Trouble → ExitCode
  | machine _ => .runtimeError
  | badValue _ | noAccess _ => .invalidArguments
  | unforeseen _ => .internalError

/-- The last words; `task` names what the machine failed in. -/
def message (task : String) : Trouble → String
  | machine e => (if task.isEmpty then "Error: " else task ++ " error: ") ++ e.message
  | badValue text | noAccess text => "Error: " ++ text
  | unforeseen text => "Internal error: " ++ text

/-- The last words as they are printed. -/
def lastWords (task : String) (t : Trouble) : String :=
  Outcome.said (t.message task)

def ofSeedError (e : SeedError) : Trouble :=
  .badValue e.message

def ofLoadError (e : LoadError) : Trouble :=
  .machine (.load e)

def ofKeyError (e : KeyError) : Trouble :=
  .badValue e.message

def ofScaleError (e : ScaleError) : Trouble :=
  match e with
  | .tooSmall _ => .badValue e.message
  | .tooWide | .beyondWord | .noRoom => .unforeseen e.message

def ofDefect (d : Defect) : Trouble :=
  match d with
  | .noByte => .badValue d.message
  | .noSlotToRead | .noSlotToWrite | .noRegister | .noSlotNumber => .unforeseen d.message

def ofFileError (e : FileError) : Trouble :=
  match e with
  | .notFound _ => .noAccess e.message
  | .notDirectory _ | .isDirectory _ | .tooLong _ => .unforeseen e.message

end Trouble

/-- The answer to a command line that is refused. -/
def Answer.ofUsageError (e : UsageError) : Answer :=
  match e with
  | .nullCharacter => .abandoned e.message
  | .missingValue _ | .unexpectedValue _ =>
    .done
      { exit := ExitCode.invalidArguments.code
        stderr := Outcome.said ("Error: " ++ e.message) }
  | _ => .refused e

end CommandLine
end Chip8
