import Chip8.Text.Hex

/-!
# Chip8.Fault

Why a cycle or the loading of a program was refused, and how that reads.
-/

namespace Chip8

/-- Why an instruction could not be carried out. -/
inductive Cause where
  | unknownOpcode (message : String)
  | stackOverflow
  | stackUnderflow
  /-- `target` is the first address below the program area that would have been written. -/
  | protectedWrite (target : Int)
  | other (message : String)
  deriving DecidableEq, Repr

namespace Cause

def message : Cause → String
  | unknownOpcode text => text
  | stackOverflow => "stack overflow"
  | stackUnderflow => "stack underflow"
  | protectedWrite target => "write to protected address $" ++ Text.hex 3 target
  | other text => text

/-- The word at the program counter has no form. -/
def noForm : Cause :=
  .unknownOpcode "unknown opcode"

/-- The word calls machine code of the host. -/
def machineCode : Cause :=
  .unknownOpcode "machine-language subroutine calls are not supported"

end Cause

/-- An instruction that failed, with its place and its word where they are known. -/
structure Fault where
  cause : Cause
  address : Option Int := none
  opcode : Option Int := none
  deriving DecidableEq, Repr

/-- Place, word and cause, with a blank between the parts that are known. -/
def Fault.message (f : Fault) : String :=
  let place := f.address.map fun a => "$" ++ Text.hex 4 a ++ ":"
  let word := f.opcode.map fun w => "[" ++ Text.hex 4 w ++ "]"
  " ".intercalate (place.toList ++ word.toList ++ [f.cause.message])

/-- Why a program could not be loaded. -/
inductive LoadError where
  | tooLarge (size capacity : Int)
  | other (message : String)
  deriving DecidableEq, Repr

def LoadError.message : LoadError → String
  | tooLarge size capacity =>
    "program is " ++ toString size ++ " bytes, only " ++ toString capacity ++ " bytes available"
  | other text => text

/-- Any failure of the machine. -/
inductive Error where
  | fault (fault : Fault)
  | load (error : LoadError)
  | other (message : String)
  deriving DecidableEq, Repr

def Error.message : Error → String
  | fault f => f.message
  | load e => e.message
  | other text => text

end Chip8
