import Chip8.Engine

/-!
# Chip8.Proofs.Bounds

The bounds of a machine (`Machine.WellFormed`) and the changes that instructions are made of: each
change keeps the bounds, so each instruction that cannot fail does (`WellFormed.obey`). A slot number
within the bounds names a slot, and a number within the bounds of a byte is one.
-/

namespace Chip8

theorem slot_of_range {n : Nat} {k : Int} (h0 : 0 ≤ k) (hk : k < n) (hn : n ≤ 0x8000000000000000)
    (outside : Defect) : slot n outside k = .ok ⟨k.toNat, by omega⟩ := by
  have h1 : ¬(k < -0x8000000000000000 ∨ 0x8000000000000000 ≤ k) := by omega
  have h2 : 0 ≤ k ∧ k < n := ⟨h0, hk⟩
  rw [slot, if_neg h1, dif_pos h2]

theorem byteOf_of_range {n : Int} (h0 : 0 ≤ n) (hn : n < 0x100) :
    byteOf n = .ok (UInt8.ofNat n.toNat) :=
  if_pos ⟨h0, hn⟩

theorem Memory.wrap_lt (a : Int) : Memory.wrap a < 0x1000 := by
  simp only [Memory.wrap]
  omega

theorem Memory.wrap_of_lt {a : Nat} (h : a < 0x1000) : Memory.wrap (a : Int) = a := by
  simp only [Memory.wrap]
  omega

namespace Machine

variable {m : Machine}

theorem jump_pc (m : Machine) (a : Int) : (m.jump a).pc = Memory.wrap a := rfl

theorem advance_pc (m : Machine) : m.advance.pc = (m.pc + 2) % 0x1000 := by
  simp only [advance, jump_pc, Memory.wrap]
  omega

@[simp] theorem jump_awaiting (m : Machine) (a : Int) : (m.jump a).awaiting = m.awaiting := rfl

@[simp] theorem advance_awaiting (m : Machine) : m.advance.awaiting = m.awaiting := rfl

@[simp] theorem skipIf_awaiting (m : Machine) (c : Bool) : (m.skipIf c).awaiting = m.awaiting := rfl

@[simp] theorem setV_awaiting (m : Machine) (r : Fin 16) (b : UInt8) :
    (m.setV r b).awaiting = m.awaiting := rfl

@[simp] theorem setFlagged_awaiting (m : Machine) (r : Fin 16) (b : UInt8) (flag : Bool) :
    (m.setFlagged r b flag).awaiting = m.awaiting := rfl

/-- Drawing with the drawing named, so that its parts can be looked at without carrying it out. -/
theorem drawSprite_eq (m : Machine) (x y : Fin 16) (n : Nat) :
    m.drawSprite x y n =
      let drawing := m.screen.draw m.v[x].toNat m.v[y].toNat (m.spriteRows n)
      { m with screen := drawing.1, drawn := m.drawn || n != 0 }.setV 15
        (if drawing.2 then 1 else 0) := by
  simp only [drawSprite]

@[simp] theorem drawSprite_awaiting (m : Machine) (x y : Fin 16) (n : Nat) :
    (m.drawSprite x y n).awaiting = m.awaiting := by
  simp only [drawSprite_eq, setV_awaiting]

@[simp] theorem loadRegisters_awaiting (m : Machine) (x : Fin 16) :
    (m.loadRegisters x).awaiting = m.awaiting := by
  simp only [loadRegisters]

@[simp] theorem poke_awaiting (m : Machine) (a : Int) (bytes : List UInt8) :
    (m.poke a bytes).awaiting = m.awaiting := by
  simp only [poke]

@[simp] theorem obey_awaiting (m : Machine) (ins : Instruction) :
    (m.obey ins).awaiting = m.awaiting := by
  simp only [obey]
  split <;> simp

theorem word_lt (m : Machine) : m.word < 0x10000 := by
  have h1 := (m.memory.read m.pc).toNat_lt
  have h2 := (m.memory.read (m.pc + 1)).toNat_lt
  simp only [word]
  omega

theorem wellFormed_fresh : fresh.WellFormed where
  pc_lt := by simp [fresh, Memory.programStart]
  i_range := by simp [fresh]
  sp_range := by simp [fresh]
  stack_range k := by simp [fresh]
  delay_range := by simp [fresh]
  sound_range := by simp [fresh]
  awaiting_range r hr := by simp [fresh] at hr

namespace WellFormed

theorem setMemory (h : m.WellFormed) (memory : Memory) : { m with memory }.WellFormed := { h with }

theorem setRegisters (h : m.WellFormed) (v : Vector UInt8 16) : { m with v }.WellFormed := { h with }

theorem setScreen (h : m.WellFormed) (screen : Screen) (drawn : Bool) :
    { m with screen, drawn }.WellFormed := { h with }

theorem setKeypad (h : m.WellFormed) (keypad : Keypad) : { m with keypad }.WellFormed := { h with }

theorem jump (h : m.WellFormed) (a : Int) : (m.jump a).WellFormed :=
  { h with pc_lt := Memory.wrap_lt a }

theorem advance (h : m.WellFormed) : m.advance.WellFormed := h.jump _

theorem skipIf (h : m.WellFormed) (c : Bool) : (m.skipIf c).WellFormed := h.jump _

theorem setV (h : m.WellFormed) (r : Fin 16) (b : UInt8) : (m.setV r b).WellFormed :=
  h.setRegisters _

theorem setFlagged (h : m.WellFormed) (r : Fin 16) (b : UInt8) (flag : Bool) :
    (m.setFlagged r b flag).WellFormed :=
  (h.setV r b).setV 15 _

theorem drawSprite (h : m.WellFormed) (x y : Fin 16) (n : Nat) : (m.drawSprite x y n).WellFormed :=
  (h.setScreen _ _).setV 15 _

theorem loadRegisters (h : m.WellFormed) (x : Fin 16) : (m.loadRegisters x).WellFormed :=
  h.setRegisters _

theorem poke (h : m.WellFormed) (a : Int) (bytes : List UInt8) : (m.poke a bytes).WellFormed :=
  h.setMemory _

theorem powerOn (m : Machine) : m.powerOn.WellFormed := wellFormed_fresh.setMemory _

theorem load {m' : Machine} (h : m.WellFormed) {program : List UInt8}
    (hl : m.load program = .ok m') : m'.WellFormed := by
  simp only [Machine.load] at hl
  split at hl
  · cases hl
    exact h.setMemory _
  · cases hl

theorem hold (h : m.WellFormed) (k : Fin 16) (held : Bool) : (m.hold k held).WellFormed :=
  h.setKeypad _

theorem setI (h : m.WellFormed) {i : Int} (hi : 0 ≤ i ∧ i < 0x10000) :
    { m with i }.WellFormed :=
  { h with i_range := hi }

theorem setDelay (h : m.WellFormed) {t : Int} (ht : 0 ≤ t ∧ t < 0x100) :
    { m with delay := t }.WellFormed :=
  { h with delay_range := ht }

theorem setSound (h : m.WellFormed) {t : Int} (ht : 0 ≤ t ∧ t < 0x100) :
    { m with sound := t }.WellFormed :=
  { h with sound_range := ht }

theorem setSp (h : m.WellFormed) {sp : Int} (hsp : 0 ≤ sp ∧ sp ≤ 16) : { m with sp }.WellFormed :=
  { h with sp_range := hsp }

theorem setStack (h : m.WellFormed) (k : Fin 16) (a : Int) :
    { m with stack := m.stack.set k (Memory.wrap a : Int) k.isLt }.WellFormed :=
  { h with
    stack_range := fun j => by
      have hj := h.stack_range j
      have ha := Memory.wrap_lt a
      simp only [getElem_val, Vector.getElem_set] at hj ⊢
      split <;> omega }

theorem setAwaiting (h : m.WellFormed) (x : Fin 16) :
    { m with awaiting := some (x.val : Int) }.WellFormed :=
  { h with
    awaiting_range := fun r hr => by
      cases hr
      omega }

theorem clearAwaiting (h : m.WellFormed) : { m with awaiting := none }.WellFormed :=
  { h with awaiting_range := fun _ hr => by cases hr }

theorem tick (h : m.WellFormed) : m.tick.WellFormed :=
  have countDown_range {t : Int} (ht : 0 ≤ t ∧ t < 0x100) :
      0 ≤ countDown t ∧ countDown t < 0x100 := by
    simp only [countDown]
    split <;> omega
  { h with
    delay_range := countDown_range h.delay_range
    sound_range := countDown_range h.sound_range }

theorem obey (h : m.WellFormed) (ins : Instruction) : (m.obey ins).WellFormed := by
  have byte_range (b : UInt8) : 0 ≤ (b.toNat : Int) ∧ (b.toNat : Int) < 0x100 := by
    have := b.toNat_lt
    omega
  simp only [Machine.obey]
  split
  case h_1 => exact (h.setScreen _ _).advance
  case h_2 | h_19 => exact h.jump _
  case h_3 | h_4 | h_5 | h_17 | h_21 | h_22 => exact h.skipIf _
  case h_6 | h_7 | h_8 | h_9 | h_10 | h_11 => exact (h.setV _ _).advance
  case h_12 | h_13 | h_14 | h_15 | h_16 => exact (h.setFlagged _ _ _).advance
  case h_18 =>
    refine (h.setI ?_).advance
    have : ins.nnn < 0x1000 := Nat.mod_lt _ (by decide)
    omega
  case h_20 => exact (h.drawSprite _ _ _).advance
  case h_23 => exact (h.setDelay (byte_range _)).advance
  case h_24 => exact (h.setSound (byte_range _)).advance
  case h_25 =>
    refine (h.setI ?_).advance
    omega
  case h_26 =>
    refine (h.setI ?_).advance
    have := byte_range m.v[ins.x]
    simp only [Memory.glyphSize]
    omega
  case h_27 => exact (h.loadRegisters _).advance
  all_goals exact h

end WellFormed
end Machine
end Chip8
