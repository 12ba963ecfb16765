import Chip8.CommandLine.Disassemble
import Chip8.CommandLine.Run
import Chip8.Raster.Png

/-!
# Chip8.Main

The two commands as a program. The first word says which; the files that the others name are looked
at before the command is answered, and what it writes is written after.
-/

namespace Chip8
namespace CommandLine

/-- What a path leads to on this computer. -/
def look (path : String) : IO Entry := do
  try
    return .file (← IO.FS.readBinFile path).toList
  catch
    | .inappropriateType _ 21 _ => return .directory
    | .inappropriateType .. => return .blocked
    | .invalidArgument _ code _ => return if code = 36 ∨ code = 0 - 36 then .tooLong else .missing
    | _ => return .missing

/-- The paths that a command may have to know about for one that it is given. -/
def around (path : String) : List String :=
  [path, Path.normal path, Path.parent (Path.normal path)]

/-- The entries of some paths and of what is around them; nothing else is known. -/
def lookAll (paths : List String) : IO Files := do
  let entries ← (paths.flatMap around).mapM fun path => return (path, ← look path)
  return fun path => (entries.lookup path).getD .missing

def contentBytes : Content → List UInt8
  | .text s => s.toUTF8.toList
  | .picture r => r.png

/-- Prints and writes what a command leaves behind. -/
def deliver (command : String) : Answer → IO UInt32
  | .refused e => do
    IO.eprintln ("Usage: " ++ command ++ " [OPTIONS] FILE")
    IO.eprintln ("Try '" ++ command ++ " --help' for help.\n")
    IO.eprint (Outcome.said ("Error: " ++ e.message))
    return 2
  | .abandoned message => do
    IO.eprintln message
    return 1
  | .done o => do
    IO.print o.stdout
    for (path, content) in o.written do
      IO.FS.writeBinFile path ⟨(contentBytes content).toArray⟩
    IO.eprint o.stderr
    return UInt32.ofNat o.exit

/-- Answers the command that the first word names. -/
def dispatch : List String → IO UInt32
  | "chip8run" :: words => do
    let environment : Run.Environment :=
      ⟨← IO.getEnv "CHIP8_SEED", ← IO.getEnv "CHIP8_TRACE", ← IO.rand 0 0xFFFFFFFF⟩
    deliver Run.command (Run.answer (← lookAll (Run.paths words)) environment words)
  | "chip8dis" :: words => do
    deliver Disassemble.command
      (Disassemble.answer (← lookAll (Disassemble.paths words)) words)
  | _ => do
    IO.eprintln "The first word is chip8run or chip8dis."
    return 2

end CommandLine
end Chip8

/-- The program. -/
def main (args : List String) : IO UInt32 :=
  Chip8.CommandLine.dispatch args
