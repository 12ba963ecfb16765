import Chip8.Fault
import Chip8.Keypad
import Chip8.Memory
import Chip8.Screen
import Chip8.Slot

/-!
# Chip8.Machine

The whole state of the machine, its power-on state, and the changes that instructions are made of.
Registers that count or point are plain integers, so that a debugger may put anything into them;
`WellFormed` bounds them.
-/

namespace Chip8

structure Machine where
  memory : Memory
  v : Vector UInt8 16
  i : Int
  pc : Nat
  /-- Return addresses; the first `sp` slots are in use. -/
  stack : Vector Int 16
  sp : Int
  delay : Int
  sound : Int
  screen : Screen
  keypad : Keypad
  /-- The screen has been drawn on since a frame was last taken. -/
  drawn : Bool
  /-- The register that a pending key wait fills. -/
  awaiting : Option Int
  deriving DecidableEq

namespace Machine

def fresh : Machine where
  memory := Memory.fresh
  v := Vector.replicate 16 0
  i := 0
  pc := Memory.programStart
  stack := Vector.replicate 16 0
  sp := 0
  delay := 0
  sound := 0
  screen := Screen.dark
  keypad := Keypad.released
  drawn := false
  awaiting := none

/-- The power-on state that keeps the memory above the glyphs. -/
def powerOn (m : Machine) : Machine :=
  { fresh with memory := m.memory.withGlyphs }

/-- The bounds that every operation keeps. -/
structure WellFormed (m : Machine) : Prop where
  pc_lt : m.pc < 0x1000
  i_range : 0 ≤ m.i ∧ m.i < 0x10000
  sp_range : 0 ≤ m.sp ∧ m.sp ≤ 16
  stack_range : ∀ k : Fin 16, 0 ≤ m.stack[k] ∧ m.stack[k] < 0x1000
  delay_range : 0 ≤ m.delay ∧ m.delay < 0x100
  sound_range : 0 ≤ m.sound ∧ m.sound < 0x100
  awaiting_range : ∀ r, m.awaiting = some r → 0 ≤ r ∧ r < 16

/-- Copies a program to where programs start. -/
def load (m : Machine) (program : List UInt8) : Except LoadError Machine :=
  if program.length ≤ Memory.programCapacity then
    .ok { m with memory := m.memory.store Memory.programStart program }
  else .error (.tooLarge program.length Memory.programCapacity)

/-- Writes bytes anywhere; addresses wrap. -/
def poke (m : Machine) (a : Int) (bytes : List UInt8) : Machine :=
  { m with memory := m.memory.store (Memory.wrap a) bytes }

/-- Reads a byte anywhere. -/
def peekByte (m : Machine) (a : Int) : UInt8 :=
  m.memory.read (Memory.wrap a)

/-- Reads bytes anywhere; addresses wrap, and a negative count reads none. -/
def peek (m : Machine) (a count : Int) : List UInt8 :=
  m.memory.load (Memory.wrap a) count.toNat

/-- The word at the program counter, high byte first. -/
def word (m : Machine) : Nat :=
  (m.memory.read m.pc).toNat * 0x100 + (m.memory.read (m.pc + 1)).toNat

/-- Goes to the twelve low bits of an address. -/
def jump (m : Machine) (a : Int) : Machine :=
  { m with pc := Memory.wrap a }

/-- Past this instruction. -/
def advance (m : Machine) : Machine :=
  m.jump (m.pc + 2)

/-- Past this instruction, and past the next one too if `c` holds. -/
def skipIf (m : Machine) (c : Bool) : Machine :=
  m.jump (m.pc + if c then 4 else 2)

def setV (m : Machine) (r : Fin 16) (b : UInt8) : Machine :=
  { m with v := m.v.set r b (lt_sixteen r) }

/-- Puts a number into the register with number `k`. A number that is no byte counts before a
register that is none. -/
def assignV (m : Machine) (k n : Int) : Except Defect Machine :=
  match slot 16 .noRegister k, byteOf n with
  | .error .noSlotNumber, _ => .error .noSlotNumber
  | _, .error d => .error d
  | .error d, .ok _ => .error d
  | .ok r, .ok b => .ok (m.setV r b)

/-- Puts a number into the stack slot with number `k`. -/
def assignStack (m : Machine) (k n : Int) : Except Defect Machine := do
  let k ← slot 16 .noSlotToWrite k
  return { m with stack := m.stack.set k n (lt_sixteen k) }

/-- Puts a result into `r` and then a flag into VF, so that a result in VF gives way to the flag. -/
def setFlagged (m : Machine) (r : Fin 16) (b : UInt8) (flag : Bool) : Machine :=
  (m.setV r b).setV 15 (if flag then 1 else 0)

/-- A timer counts down while it is positive. -/
def countDown (t : Int) : Int :=
  if 0 < t then t - 1 else t

/-- Both timers count down. -/
def tick (m : Machine) : Machine :=
  { m with delay := countDown m.delay, sound := countDown m.sound }

def hold (m : Machine) (k : Fin 16) (held : Bool) : Machine :=
  { m with keypad := m.keypad.hold k held }

/-- Presses or releases the key with number `k`, counted from the back if it is negative. -/
def assignKey (m : Machine) (k : Int) (held : Bool) : Except Defect Machine := do
  return m.hold (← slot 16 .noSlotToWrite k) held

/-- Presses or releases a key by its name; a name that no key has changes nothing. -/
def holdKey (m : Machine) (key : Key) (held : Bool) : Except KeyError Machine :=
  match key.resolve with
  | .ok k => .ok (m.hold k held)
  | .error e => .error e

def isHeld (m : Machine) (key : Key) : Except KeyError Bool :=
  match key.resolve with
  | .ok k => .ok m.keypad[k]
  | .error e => .error e

def releaseAll (m : Machine) : Machine :=
  { m with keypad := Keypad.released }

def isAwaiting (m : Machine) : Bool :=
  m.awaiting.isSome

end Machine
end Chip8
