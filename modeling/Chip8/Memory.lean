/-!
# Chip8.Memory

4096 bytes of memory whose addresses wrap, and the glyphs at its start.
-/

namespace Chip8

abbrev Memory := Vector UInt8 4096

namespace Memory

def size : Nat := 0x1000

/-- Programs start here; what lies below belongs to the machine. -/
def programStart : Nat := 0x200

def programCapacity : Nat := size - programStart

/-- The twelve low bits of a number. -/
def wrap (a : Int) : Nat :=
  (a % 0x1000).toNat

def read (m : Memory) (a : Nat) : UInt8 :=
  m[a % 0x1000]

def write (m : Memory) (a : Nat) (b : UInt8) : Memory :=
  m.set (a % 0x1000) b

/-- Writes bytes one after another; a later byte that wraps onto an earlier one wins. -/
def store (m : Memory) (a : Nat) : List UInt8 → Memory
  | [] => m
  | b :: bs => store (m.write a b) (a + 1) bs

/-- `count` bytes from `a` on. -/
def load (m : Memory) (a count : Nat) : List UInt8 :=
  (List.range count).map fun k => m.read (a + k)

/-- Each glyph has this many rows. -/
def glyphSize : Nat := 5

/-- The glyphs of the hexadecimal digits, four pixels wide in the high nibble. -/
def glyphs : List UInt8 :=
  [0xF0, 0x90, 0x90, 0x90, 0xF0, 0x20, 0x60, 0x20, 0x20, 0x70,
    0xF0, 0x10, 0xF0, 0x80, 0xF0, 0xF0, 0x10, 0xF0, 0x10, 0xF0,
    0x90, 0x90, 0xF0, 0x10, 0x10, 0xF0, 0x80, 0xF0, 0x10, 0xF0,
    0xF0, 0x80, 0xF0, 0x90, 0xF0, 0xF0, 0x10, 0x20, 0x40, 0x40,
    0xF0, 0x90, 0xF0, 0x90, 0xF0, 0xF0, 0x90, 0xF0, 0x10, 0xF0,
    0xF0, 0x90, 0xF0, 0x90, 0x90, 0xE0, 0x90, 0xE0, 0x90, 0xE0,
    0xF0, 0x80, 0x80, 0x80, 0xF0, 0xE0, 0x90, 0x90, 0x90, 0xE0,
    0xF0, 0x80, 0xF0, 0x80, 0xF0, 0xF0, 0x80, 0xF0, 0x80, 0x80]

/-- Puts the glyphs at address zero. -/
def withGlyphs (m : Memory) : Memory :=
  m.store 0 glyphs

def fresh : Memory :=
  withGlyphs (Vector.replicate 4096 0)

end Memory
end Chip8
