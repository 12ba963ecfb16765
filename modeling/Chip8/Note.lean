import Chip8.Instruction

/-!
# Chip8.Note

What the machine notes down while it works.
-/

namespace Chip8

inductive Note where
  /-- A program of that many bytes was copied to memory. -/
  | programLoaded (size : Nat)
  /-- A program file of that name was loaded. -/
  | fileLoaded (name : String)
  /-- An instruction is about to be carried out. -/
  | executing (address opcode : Nat) (form : Form)
  | awaitingKey (register : Nat)
  | keyTaken (register : Int) (key : Nat)
  | stopped (fault : Fault)
  deriving DecidableEq, Repr

inductive NoteLevel where
  | debug
  | warning
  deriving DecidableEq, Repr

namespace Note

def level : Note → NoteLevel
  | stopped _ => .warning
  | _ => .debug

/-- The part of the machine that speaks. -/
def channel : Note → String
  | programLoaded _ => "chip8_vm.emulator.state"
  | fileLoaded _ | stopped _ => "chip8_vm.emulator.emulator"
  | executing .. | awaitingKey _ | keyTaken .. => "chip8_vm.emulator.cpu"

def message : Note → String
  | programLoaded size => "Loaded program: " ++ toString size ++ " bytes at $200"
  | fileLoaded name => "Loaded ROM " ++ name
  | executing address opcode form =>
    "$" ++ Text.hex 3 address ++ ": " ++ Text.hex 4 opcode ++ " " ++ form.name
  | awaitingKey register => "Waiting for key into V" ++ Text.hex 1 register
  | keyTaken register key =>
    "Key wait satisfied: V" ++ Text.hex 1 register ++ "=" ++ Text.hex 1 key
  | stopped fault => "Execution stopped: " ++ fault.message

end Note
end Chip8
