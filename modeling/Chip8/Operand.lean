import Chip8.Instruction

/-!
# Chip8.Operand

How instructions are written: a mnemonic and operands for every form.
-/

namespace Chip8

/-- One operand as it stands in a listing. -/
inductive Operand where
  | vx
  | vy
  | n
  | kk
  | nnn
  /-- A fixed name, such as that of a timer. -/
  | fixed (name : String)
  deriving DecidableEq, Repr

namespace Form

def mnemonic : Form → String
  | sys => "SYS"
  | cls => "CLS"
  | ret => "RET"
  | jp | jpV0 => "JP"
  | call => "CALL"
  | seByte | seReg => "SE"
  | sneByte | sneReg => "SNE"
  | addByte | addReg | addIVx => "ADD"
  | or => "OR"
  | and => "AND"
  | xor => "XOR"
  | sub => "SUB"
  | shr => "SHR"
  | subn => "SUBN"
  | shl => "SHL"
  | rnd => "RND"
  | drw => "DRW"
  | skp => "SKP"
  | sknp => "SKNP"
  | ldByte | ldReg | ldI | ldVxDt | ldVxK | ldDtVx | ldStVx | ldFVx | ldBVx | ldMemVx | ldVxMem =>
    "LD"

def operands : Form → List Operand
  | cls | ret => []
  | sys | jp | call => [.nnn]
  | seByte | sneByte | ldByte | addByte | rnd => [.vx, .kk]
  | seReg | sneReg | ldReg | or | and | xor | addReg | sub | shr | subn | shl => [.vx, .vy]
  | ldI => [.fixed "I", .nnn]
  | jpV0 => [.fixed "V0", .nnn]
  | drw => [.vx, .vy, .n]
  | skp | sknp => [.vx]
  | ldVxDt => [.vx, .fixed "DT"]
  | ldVxK => [.vx, .fixed "K"]
  | ldDtVx => [.fixed "DT", .vx]
  | ldStVx => [.fixed "ST", .vx]
  | addIVx => [.fixed "I", .vx]
  | ldFVx => [.fixed "F", .vx]
  | ldBVx => [.fixed "B", .vx]
  | ldMemVx => [.fixed "[I]", .vx]
  | ldVxMem => [.vx, .fixed "[I]"]

/-- The forms whose address may be the place of a symbol. -/
def pointsTo (f : Form) : Bool :=
  f.operands.contains .nnn

end Form

namespace Operand

/-- A byte as it stands in a listing. -/
def byteText (b : UInt8) : String :=
  "0x" ++ Text.hexByte b

def text (ins : Instruction) : Operand → String
  | vx => "V" ++ Text.hex 1 ins.x.val
  | vy => "V" ++ Text.hex 1 ins.y.val
  | n => toString ins.n
  | kk => byteText ins.kk
  | nnn => "0x" ++ Text.hex 3 ins.nnn
  | fixed name => name

end Operand

/-- The operands of an instruction with a comma between neighbours. -/
def Instruction.operandText (ins : Instruction) : String :=
  ", ".intercalate (ins.form.operands.map (Operand.text ins))

end Chip8
