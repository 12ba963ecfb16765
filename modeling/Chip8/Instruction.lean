import Chip8.Fault
import Chip8.Form

/-!
# Chip8.Instruction

An instruction word with its form, the operand fields of the word, and decoding.
-/

namespace Chip8

/-- A word and the form it has. -/
structure Instruction where
  form : Form
  opcode : Nat
  deriving DecidableEq, Repr

namespace Instruction

/-- The register in the second nibble. -/
def x (ins : Instruction) : Fin 16 :=
  ⟨ins.opcode / 0x100 % 0x10, Nat.mod_lt _ (by decide)⟩

/-- The register in the third nibble. -/
def y (ins : Instruction) : Fin 16 :=
  ⟨ins.opcode / 0x10 % 0x10, Nat.mod_lt _ (by decide)⟩

/-- The low nibble. -/
def n (ins : Instruction) : Nat :=
  ins.opcode % 0x10

/-- The low byte. -/
def kk (ins : Instruction) : UInt8 :=
  UInt8.ofNat ins.opcode

/-- The low twelve bits. -/
def nnn (ins : Instruction) : Nat :=
  ins.opcode % 0x1000

/-- The instruction of a word below 2^16. -/
def ofWord? (w : Nat) : Option Instruction :=
  (Form.ofWord? w).map fun form => ⟨form, w⟩

/-- The low sixteen bits of a number. -/
def wordOf (n : Int) : Nat :=
  (n % 0x10000).toNat

/-- Decodes the low sixteen bits of `opcode`; `address` only tells a fault its place. -/
def decode (opcode : Int) (address : Option Int) : Except Fault Instruction :=
  let w := wordOf opcode
  match ofWord? w with
  | some ins => .ok ins
  | none => .error ⟨.noForm, address, some w⟩

end Instruction
end Chip8
