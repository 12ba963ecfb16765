import Chip8.Machine
import Chip8.Note
import Chip8.Random

/-!
# Chip8.Engine

One cycle of the machine. A cycle polls a pending key wait, or fetches, decodes and carries out the
word at the program counter. A cycle that fails keeps the state it had come to.
-/

namespace Chip8

/-- How a cycle fails. -/
inductive Failure where
  | fault (f : Fault)
  | defect (d : Defect)
  deriving DecidableEq, Repr

/-- A machine, its random bytes, and what it notes down. -/
structure Engine where
  machine : Machine
  random : RandomSource
  /-- Note every instruction before it is carried out. -/
  trace : Bool
  notes : Array Note

namespace Machine

/-- Pixels that a draw instruction takes from memory at I, one byte a row. -/
def spriteRows (m : Machine) (n : Nat) : List Int :=
  (m.peek m.i n).map fun b => (b.toNat : Int)

/-- Draws `n` rows at the position in two registers; VF tells of a collision. -/
def drawSprite (m : Machine) (x y : Fin 16) (n : Nat) : Machine :=
  let (screen, hit) := m.screen.draw m.v[x].toNat m.v[y].toNat (m.spriteRows n)
  { m with screen, drawn := m.drawn || n != 0 }.setV 15 (if hit then 1 else 0)

/-- The first address below the program area among `count` addresses from I on. -/
def firstProtected? (m : Machine) (count : Nat) : Option Nat :=
  ((List.range count).map fun (k : Nat) => Memory.wrap (m.i + k)).find? (· < Memory.programStart)

/-- Hundreds, tens and units. -/
def decimalDigits (b : UInt8) : List UInt8 :=
  [b / 100, b / 10 % 10, b % 10]

/-- Fills the registers up to `x` from memory at I. -/
def loadRegisters (m : Machine) (x : Fin 16) : Machine :=
  { m with v := Vector.ofFn fun r => if r ≤ x then m.peekByte (m.i + r) else m.v[r] }

/-- What an instruction does that cannot fail and needs nothing but the machine; the others are left
to the engine. -/
def obey (m : Machine) (ins : Instruction) : Machine :=
  let x := ins.x
  let y := ins.y
  match ins.form with
  | .cls => { m with screen := Screen.dark, drawn := true }.advance
  | .jp => m.jump ins.nnn
  | .seByte => m.skipIf (m.v[x] == ins.kk)
  | .sneByte => m.skipIf (m.v[x] != ins.kk)
  | .seReg => m.skipIf (m.v[x] == m.v[y])
  | .ldByte => (m.setV x ins.kk).advance
  | .addByte => (m.setV x (m.v[x] + ins.kk)).advance
  | .ldReg => (m.setV x m.v[y]).advance
  | .or => (m.setV x (m.v[x] ||| m.v[y])).advance
  | .and => (m.setV x (m.v[x] &&& m.v[y])).advance
  | .xor => (m.setV x (m.v[x] ^^^ m.v[y])).advance
  | .addReg =>
    (m.setFlagged x (m.v[x] + m.v[y]) (255 < m.v[x].toNat + m.v[y].toNat)).advance
  | .sub => (m.setFlagged x (m.v[x] - m.v[y]) (m.v[y] ≤ m.v[x])).advance
  | .shr => (m.setFlagged x (m.v[x] >>> 1) (m.v[x] &&& 1 == 1)).advance
  | .subn => (m.setFlagged x (m.v[y] - m.v[x]) (m.v[x] ≤ m.v[y])).advance
  | .shl => (m.setFlagged x (m.v[x] <<< 1) (m.v[x] >>> 7 == 1)).advance
  | .sneReg => m.skipIf (m.v[x] != m.v[y])
  | .ldI => { m with i := ins.nnn }.advance
  | .jpV0 => m.jump (ins.nnn + m.v[(0 : Fin 16)].toNat)
  | .drw => (m.drawSprite x y ins.n).advance
  | .skp => m.skipIf m.keypad[m.v[x].toNat % 16]
  | .sknp => m.skipIf !m.keypad[m.v[x].toNat % 16]
  | .ldDtVx => { m with delay := m.v[x].toNat }.advance
  | .ldStVx => { m with sound := m.v[x].toNat }.advance
  | .addIVx => { m with i := (m.i + m.v[x].toNat) % 0x10000 }.advance
  | .ldFVx => { m with i := Memory.glyphSize * m.v[x].toNat }.advance
  | .ldVxMem => (m.loadRegisters x).advance
  | .sys | .ret | .call | .rnd | .ldVxDt | .ldVxK | .ldBVx | .ldMemVx => m

end Machine

/-- A computation on the engine that may fail and keeps the state it had come to. -/
abbrev Cycle := EStateM Failure Engine

namespace Engine

def change (f : Machine → Machine) : Cycle Unit :=
  modify fun e => { e with machine := f e.machine }

def note (n : Note) : Cycle Unit :=
  modify fun e => { e with notes := e.notes.push n }

/-- Fails at the program counter, with the word there. -/
def raise (cause : Cause) : Cycle α := do
  let m := (← get).machine
  throw (.fault ⟨cause, some m.pc, some m.word⟩)

/-- Goes on with an answer unless it is a defect. -/
def orDefect : Except Defect α → Cycle α
  | .ok a => return a
  | .error d => throw (.defect d)

/-- The instruction at the program counter. -/
def decodeHere : Cycle Instruction := do
  let m := (← get).machine
  match Instruction.decode m.word (some m.pc) with
  | .ok ins => return ins
  | .error f => throw (.fault f)

/-- Goes back to the caller. -/
def returnFromCall : Cycle Unit := do
  if (← get).machine.sp = 0 then raise .stackUnderflow
  change fun m => { m with sp := m.sp - 1 }
  let m := (← get).machine
  let top ← orDefect (slot 16 .noSlotToRead m.sp)
  change fun m => m.jump m.stack[top]

/-- Keeps the address of the next instruction and jumps. -/
def call (target : Nat) : Cycle Unit := do
  let m := (← get).machine
  if m.sp = 16 then raise .stackOverflow
  let pushed ← orDefect (m.assignStack m.sp (Memory.wrap (m.pc + 2)))
  change fun _ => { pushed with sp := m.sp + 1 }.jump target

/-- Takes a random byte. -/
def randomByte : Cycle UInt8 :=
  modifyGet fun e =>
    let (b, random) := e.random.next
    (b, { e with random })

/-- Puts the lowest held key into `x`, or waits for one. -/
def takeKey (x : Fin 16) : Cycle Unit := do
  match (← get).machine.keypad.first? with
  | some key => change fun m => (m.setV x (UInt8.ofNat key)).advance
  | none =>
    change fun m => { m with awaiting := some (x.val : Int) }
    note (.awaitingKey x)

/-- Puts the delay timer into `x`. -/
def readDelay (x : Fin 16) : Cycle Unit := do
  let m := (← get).machine
  let filled ← orDefect (m.assignV x m.delay)
  change fun _ => filled.advance

/-- Fails if a store of `count` bytes at I would leave the program area. -/
def guardStore (count : Nat) : Cycle Unit := do
  match (← get).machine.firstProtected? count with
  | some target => raise (.protectedWrite target)
  | none => return

/-- Carries out an instruction. -/
def perform (ins : Instruction) : Cycle Unit :=
  let x := ins.x
  match ins.form with
  | .sys => raise .machineCode
  | .ret => returnFromCall
  | .call => call ins.nnn
  | .rnd => do
    let b ← randomByte
    change fun m => (m.setV x (b &&& ins.kk)).advance
  | .ldVxDt => readDelay x
  | .ldVxK => takeKey x
  | .ldBVx => do
    guardStore 3
    change fun m => (m.poke m.i (Machine.decimalDigits m.v[x])).advance
  | .ldMemVx => do
    guardStore (x + 1)
    change fun m => (m.poke m.i (m.v.toList.take (x + 1))).advance
  | _ => change fun m => m.obey ins

/-- Ends a key wait for `register` if a key is held. -/
def poll (register : Int) : Cycle (Option Instruction) := do
  let m := (← get).machine
  match m.keypad.first? with
  | none => return none
  | some key =>
    let ins ← decodeHere
    let filled ← orDefect (m.assignV register (key.val : Int))
    change fun _ => { filled with awaiting := none }.advance
    note (.keyTaken register key)
    return some ins

/-- One cycle. The answer is the instruction that was completed, or `none` if a key is awaited. -/
def step : Cycle (Option Instruction) := do
  match (← get).machine.awaiting with
  | some register => poll register
  | none =>
    let ins ← decodeHere
    let e ← get
    if e.trace && ins.form.executable then
      note (.executing e.machine.pc ins.opcode ins.form)
    perform ins
    return if (← get).machine.isAwaiting then none else some ins

end Engine

/-- Asked with the program counter and the word there before an instruction begins; the answer
`false` stops the run. -/
abbrev Hook (σ : Type) := Machine → (pc opcode : Nat) → σ → Bool × σ

namespace Hook

/-- Never stops a run. -/
def off : Hook σ :=
  fun _ _ _ s => (true, s)

/-- A hook is not asked while a key is awaited. -/
def ask (hook : Hook σ) (m : Machine) (s : σ) : Bool × σ :=
  if m.isAwaiting then (true, s) else hook m m.pc m.word s

end Hook

namespace Engine

/-- Runs at most `budget` more cycles after `done`. The run ends early when the hook says so, when a
cycle ends awaiting a key, or in a failure. -/
def executeFrom (hook : Hook σ) : (budget done : Nat) → Engine → σ →
    EStateM.Result Failure (Engine × σ) Nat
  | 0, done, e, s => .ok done (e, s)
  | budget + 1, done, e, s =>
    match hook.ask e.machine s with
    | (false, s) => .ok done (e, s)
    | (true, s) =>
      match step e with
      | .ok (some _) e => executeFrom hook budget (done + 1) e s
      | .ok none e => .ok (done + 1) (e, s)
      | .error f e => .error f (e, s)

/-- Runs at most `budget` cycles; the answer is how many were completed. -/
def execute (hook : Hook σ) (budget : Nat) (e : Engine) (s : σ) :
    EStateM.Result Failure (Engine × σ) Nat :=
  executeFrom hook budget 0 e s

end Engine
end Chip8
