import Chip8.CommandLine.Options
import Chip8.Files
import Chip8.Raster
import Chip8.Text.Plain

/-!
# Chip8.CommandLine.Outcome

What a command is asked, and what it leaves behind: its exit code, its output and the files that it
wrote.
-/

namespace Chip8
namespace CommandLine

/-- What a path leads to, if a system takes it. -/
def entry (files : Files) (path : String) : Except UsageError Entry :=
  if path.contains '\x00' then .error .nullCharacter else .ok (files path)

/-- A path that must lead to a file. -/
def existingFile (files : Files) (name path : String) : Except UsageError (List UInt8) := do
  match ← entry files path with
  | .file content => return content
  | .directory => throw (.isDirectory name path)
  | .missing | .blocked | .tooLong => throw (.noSuchFile name path)

/-- A path that may lead to a file or nowhere. -/
def writableFile (files : Files) (name path : String) : Except UsageError String := do
  match ← entry files path with
  | .directory => throw (.isDirectory name path)
  | _ => return Path.normal path

/-- What a command writes to a file. -/
inductive Content where
  | text (s : String)
  | picture (r : Raster)
  deriving DecidableEq

/-- What a command leaves behind. -/
structure Outcome where
  exit : Nat := 0
  stdout : String := ""
  stderr : String := ""
  written : List (String × Content) := []
  deriving DecidableEq

namespace Outcome

def line (s : String) : String :=
  s ++ "\n"

def lines (ss : List String) : String :=
  String.join (ss.map line)

/-- A line as a command prints it: without control sequences. -/
def said (s : String) : String :=
  line (Text.plain s)

def allSaid (ss : List String) : String :=
  String.join (ss.map said)

end Outcome

/-- What a command line asks for. -/
inductive Request (α : Type) where
  | version
  | help
  | work (request : α)

/-- How a command line is answered. -/
inductive Answer where
  /-- With the usage of the command and the error. -/
  | refused (error : UsageError)
  /-- The system does not take the words. -/
  | abandoned (message : String)
  | done (outcome : Outcome)

/-- The version of this library and its commands. -/
def version : String := "1.0.0"

def versionLine (command : String) : String :=
  command ++ ", version " ++ version

end CommandLine
end Chip8
