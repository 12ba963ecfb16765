/-!
# Chip8.Form

The instruction forms, and the form of an instruction word.
-/

namespace Chip8

/-- The forms of an instruction word; a comment shows the nibbles of each. -/
inductive Form where
  /-- 0nnn -/
  | sys
  /-- 00E0 -/
  | cls
  /-- 00EE -/
  | ret
  /-- 1nnn -/
  | jp
  /-- 2nnn -/
  | call
  /-- 3xkk -/
  | seByte
  /-- 4xkk -/
  | sneByte
  /-- 5xy0 -/
  | seReg
  /-- 6xkk -/
  | ldByte
  /-- 7xkk -/
  | addByte
  /-- 8xy0 -/
  | ldReg
  /-- 8xy1 -/
  | or
  /-- 8xy2 -/
  | and
  /-- 8xy3 -/
  | xor
  /-- 8xy4 -/
  | addReg
  /-- 8xy5 -/
  | sub
  /-- 8xy6 -/
  | shr
  /-- 8xy7 -/
  | subn
  /-- 8xyE -/
  | shl
  /-- 9xy0 -/
  | sneReg
  /-- Annn -/
  | ldI
  /-- Bnnn -/
  | jpV0
  /-- Cxkk -/
  | rnd
  /-- Dxyn -/
  | drw
  /-- Ex9E -/
  | skp
  /-- ExA1 -/
  | sknp
  /-- Fx07 -/
  | ldVxDt
  /-- Fx0A -/
  | ldVxK
  /-- Fx15 -/
  | ldDtVx
  /-- Fx18 -/
  | ldStVx
  /-- Fx1E -/
  | addIVx
  /-- Fx29 -/
  | ldFVx
  /-- Fx33 -/
  | ldBVx
  /-- Fx55 -/
  | ldMemVx
  /-- Fx65 -/
  | ldVxMem
  deriving DecidableEq, Repr

namespace Form

/-- All forms, in the order of their first nibble. -/
def all : List Form :=
  [sys, cls, ret, jp, call, seByte, sneByte, seReg, ldByte, addByte, ldReg, or, and, xor, addReg,
    sub, shr, subn, shl, sneReg, ldI, jpV0, rnd, drw, skp, sknp, ldVxDt, ldVxK, ldDtVx, ldStVx,
    addIVx, ldFVx, ldBVx, ldMemVx, ldVxMem]

def name : Form → String
  | sys => "SYS"
  | cls => "CLS"
  | ret => "RET"
  | jp => "JP"
  | call => "CALL"
  | seByte => "SE_BYTE"
  | sneByte => "SNE_BYTE"
  | seReg => "SE_REG"
  | ldByte => "LD_BYTE"
  | addByte => "ADD_BYTE"
  | ldReg => "LD_REG"
  | or => "OR"
  | and => "AND"
  | xor => "XOR"
  | addReg => "ADD_REG"
  | sub => "SUB"
  | shr => "SHR"
  | subn => "SUBN"
  | shl => "SHL"
  | sneReg => "SNE_REG"
  | ldI => "LD_I"
  | jpV0 => "JP_V0"
  | rnd => "RND"
  | drw => "DRW"
  | skp => "SKP"
  | sknp => "SKNP"
  | ldVxDt => "LD_VX_DT"
  | ldVxK => "LD_VX_K"
  | ldDtVx => "LD_DT_VX"
  | ldStVx => "LD_ST_VX"
  | addIVx => "ADD_I_VX"
  | ldFVx => "LD_F_VX"
  | ldBVx => "LD_B_VX"
  | ldMemVx => "LD_MEM_VX"
  | ldVxMem => "LD_VX_MEM"

/-- The place of a form among all, counted from one. -/
def number (f : Form) : Nat :=
  all.idxOf f + 1

def ofName? (s : String) : Option Form :=
  all.find? fun f => f.name = s

/-- Family 8, by its low nibble. -/
def ofArithmetic : Nat → Option Form
  | 0x0 => some ldReg
  | 0x1 => some or
  | 0x2 => some and
  | 0x3 => some xor
  | 0x4 => some addReg
  | 0x5 => some sub
  | 0x6 => some shr
  | 0x7 => some subn
  | 0xE => some shl
  | _ => none

/-- Family E, by its low byte. -/
def ofKeyTest : Nat → Option Form
  | 0x9E => some skp
  | 0xA1 => some sknp
  | _ => none

/-- Family F, by its low byte. -/
def ofTransfer : Nat → Option Form
  | 0x07 => some ldVxDt
  | 0x0A => some ldVxK
  | 0x15 => some ldDtVx
  | 0x18 => some ldStVx
  | 0x1E => some addIVx
  | 0x29 => some ldFVx
  | 0x33 => some ldBVx
  | 0x55 => some ldMemVx
  | 0x65 => some ldVxMem
  | _ => none

/-- The form of a word below 2^16; `none` if it has none. -/
def ofWord? (w : Nat) : Option Form :=
  match w / 0x1000 with
  | 0x0 => some (if w = 0x00E0 then cls else if w = 0x00EE then ret else sys)
  | 0x1 => some jp
  | 0x2 => some call
  | 0x3 => some seByte
  | 0x4 => some sneByte
  | 0x5 => if w % 0x10 = 0 then some seReg else none
  | 0x6 => some ldByte
  | 0x7 => some addByte
  | 0x8 => ofArithmetic (w % 0x10)
  | 0x9 => if w % 0x10 = 0 then some sneReg else none
  | 0xA => some ldI
  | 0xB => some jpV0
  | 0xC => some rnd
  | 0xD => some drw
  | 0xE => ofKeyTest (w % 0x100)
  | 0xF => ofTransfer (w % 0x100)
  | _ => none

/-- The engine carries out every form but calls of host machine code. -/
def executable (f : Form) : Bool :=
  f ≠ sys

end Form
end Chip8
