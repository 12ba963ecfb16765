import Chip8.Proofs.Footprint
import Chip8.Proofs.Protection

/-!
# Chip8.Proofs.Transfer

Bytes between registers and memory. Fx55 and Fx33 store at I and are refused where they would come round
to the protected area, Fx65 loads from I and may go round the end of memory. Both count their addresses
from I in the same way, so that a store and a load undo each other; neither has more bytes than memory has
addresses, so that no byte of a store falls on an earlier one.

* `Engine.CarriesOut`   : a cycle carries a word out and completes.
* `Machine.DecimalAt`   : three digits that make a byte.

`transfers_round_trip` asks of no machine that it is within its bounds.
-/

namespace Chip8

namespace Memory

variable {m : Memory} {a k : Nat} {bytes : List UInt8}

theorem read_mod (m : Memory) (a : Nat) : m.read (a % 0x1000) = m.read a := by
  simp only [read, Nat.mod_mod]

/-- A store that does not come round to its own start is read back. -/
theorem read_store_add (hlength : bytes.length ≤ 0x1000) (hk : k < bytes.length) :
    (m.store a bytes).read (a + k) = bytes[k] := by
  induction bytes generalizing m a k with
  | nil => cases hk
  | cons b bytes ih =>
    rw [List.length_cons] at hlength hk
    rw [store]
    cases k with
    | zero =>
      -- the bytes behind the first do not reach its address again
      have hfirst : ∀ j < bytes.length, (a + 1 + j) % 0x1000 ≠ (a + 0) % 0x1000 := by
        intro j hj
        omega
      rw [read_store_of_ne hfirst, Nat.add_zero, read_write, if_pos rfl]
      rfl
    | succ k =>
      have hrest := @ih (m.write a b) (a + 1) k (by omega) (by omega)
      rw [Nat.add_right_comm] at hrest
      exact hrest

theorem write_read (m : Memory) (a : Nat) : m.write a (m.read a) = m := by
  simp only [write, read, Vector.set_getElem_self]

/-- Storing what is there already changes nothing. -/
theorem store_of_read (h : ∀ (k : Nat) (hk : k < bytes.length), m.read (a + k) = bytes[k]) :
    m.store a bytes = m := by
  induction bytes generalizing a with
  | nil => rfl
  | cons b bytes ih =>
    have hfirst : m.read a = b := h 0 (Nat.succ_pos _)
    rw [store, ← hfirst, write_read]
    refine ih fun k hk => ?_
    have hnext := h (k + 1) (Nat.succ_lt_succ hk)
    rw [Nat.add_right_comm]
    exact hnext

end Memory

namespace Machine

variable {m : Machine} {i : Int} {k : Nat} {bytes : List UInt8} {x : Fin 16}

theorem peekByte_add (m : Machine) (i : Int) (k : Nat) :
    m.peekByte (i + k) = m.memory.read (Memory.wrap i + k) := by
  rw [peekByte, Memory.wrap_add, Memory.read_mod]

theorem peekByte_congr {n : Machine} (h : n.memory = m.memory) (a : Int) : n.peekByte a = m.peekByte a := by
  rw [peekByte, peekByte, h]

theorem peekByte_poke (hlength : bytes.length ≤ 0x1000) (hk : k < bytes.length) :
    (m.poke i bytes).peekByte (i + k) = bytes[k] := by
  rw [peekByte_add]
  exact Memory.read_store_add hlength hk

theorem poke_of_peekByte (h : ∀ (k : Nat) (hk : k < bytes.length), m.peekByte (i + k) = bytes[k]) :
    (m.poke i bytes).memory = m.memory := by
  refine Memory.store_of_read fun k hk => ?_
  rw [← peekByte_add, h k hk]

/-- The registers that Fx55 stores. -/
def lowRegisters (m : Machine) (x : Fin 16) : List UInt8 :=
  m.v.toList.take (x + 1)

theorem length_lowRegisters (m : Machine) (x : Fin 16) : (m.lowRegisters x).length = x + 1 := by
  simp only [lowRegisters, List.length_take, Vector.length_toList]
  omega

theorem getElem_lowRegisters (m : Machine) {k : Fin 16} (hk : k.val < (m.lowRegisters x).length) :
    (m.lowRegisters x)[k.val] = m.v.get k := by
  simp only [lowRegisters, List.getElem_take, Vector.getElem_toList]
  rfl

theorem get_loadRegisters (m : Machine) {k : Fin 16} (hk : k ≤ x) :
    (m.loadRegisters x).v.get k = m.peekByte (m.i + k.val) := by
  show (m.loadRegisters x).v[k] = _
  simp only [loadRegisters, getElem_val, Vector.getElem_ofFn, if_pos hk]

/-- The three bytes from `i` on are the decimal digits of a byte. -/
structure DecimalAt (m : Machine) (i : Int) (b : UInt8) : Prop where
  hundreds : (m.peekByte i).toNat ≤ 9
  tens : (m.peekByte (i + 1)).toNat ≤ 9
  units : (m.peekByte (i + 2)).toNat ≤ 9
  value : 100 * (m.peekByte i).toNat + 10 * (m.peekByte (i + 1)).toNat +
    (m.peekByte (i + 2)).toNat = b.toNat

theorem decimalAt_of_poke {n : Machine} {b : UInt8}
    (hn : n.memory = (m.poke i (decimalDigits b)).memory) : n.DecimalAt i b := by
  have hb := b.toNat_lt
  have hread (k : Nat) (hk : k < 3) : n.peekByte (i + k) = (decimalDigits b)[k] := by
    rw [peekByte_congr hn]
    exact peekByte_poke (by show 3 ≤ 0x1000; decide) hk
  have h0 : n.peekByte i = b / 100 := by
    have := hread 0 (by decide)
    rwa [Int.natCast_zero, Int.add_zero] at this
  have h1 : n.peekByte (i + 1) = b / 10 % 10 := hread 1 (by decide)
  have h2 : n.peekByte (i + 2) = b % 10 := hread 2 (by decide)
  have hhundreds : (b / 100).toNat = b.toNat / 100 := UInt8.toNat_div b 100
  have htens : (b / 10 % 10).toNat = b.toNat / 10 % 10 := by
    rw [UInt8.toNat_mod, UInt8.toNat_div]
    rfl
  have hunits : (b % 10).toNat = b.toNat % 10 := UInt8.toNat_mod b 10
  constructor
  case hundreds => rw [h0]; omega
  case tens => rw [h1]; omega
  case units => rw [h2]; omega
  case value => rw [h0, h1, h2]; omega

end Machine

namespace Engine

variable {e e' : Engine} {x : Fin 16} {w : Nat}

/-- The next cycle carries the word `w` out and completes. A cycle that polls a key wait carries none
out. -/
structure CarriesOut (e : Engine) (w : Nat) (e' : Engine) : Prop where
  idle : e.machine.awaiting = none
  word : e.machine.word = w
  completes : ∃ a, step e = .ok a e'

theorem CarriesOut.eq_next (h : e.CarriesOut w e') : e' = e.next := by
  obtain ⟨a, hs⟩ := h.completes
  exact (next_of_ok hs).symm

theorem carriesOut_next (h : e.machine.awaiting = none ∧ e.machine.word = w ∧ e.completes = true) :
    e.CarriesOut w e.next := by
  obtain ⟨ha, hw, hc⟩ := h
  obtain ⟨a, hs⟩ := step_of_completes hc
  exact ⟨ha, hw, a, hs⟩

theorem x_of_transfer {form : Form} {k : Nat} (hk : k < 0x100) (hw : w = 0xF000 + k + 0x100 * x) :
    (⟨form, w⟩ : Instruction).x = x :=
  Instruction.x_of_word (by omega)

theorem ofWord_of_transfer {form : Form} {k : Nat} (hk : k < 0x100)
    (hform : Form.ofTransfer k = some form) (hw : w = 0xF000 + k + 0x100 * x) :
    Instruction.ofWord? w = some ⟨form, w⟩ := by
  refine Instruction.ofWord_of_form ?_
  rw [Form.ofWord?_transfer (k := k) (by omega) (by omega), hform]

/-- A load always completes. -/
theorem carriesOut_load (ha : e.machine.awaiting = none) (hw : e.machine.word = 0xF065 + 0x100 * x) :
    e.CarriesOut (0xF065 + 0x100 * x) e.next ∧
      e.next.machine = (e.machine.loadRegisters x).advance := by
  have hd := ofWord_of_transfer (k := 0x65) (by decide) rfl hw
  obtain ⟨hs, hm, -⟩ := step_of_obeyed ha hd rfl
  refine ⟨⟨ha, hw, _, hs⟩, ?_⟩
  rw [hm]
  simp only [Machine.obey, x_of_transfer (k := 0x65) (by decide) hw]

/-- A store that completes writes its bytes at I, and changes nothing else. -/
theorem CarriesOut.stores {form : Form} {k : Nat} {bytes : List UInt8} (hk : k < 0x100)
    (hform : Form.ofTransfer k = some form) (h : e.CarriesOut (0xF000 + k + 0x100 * x) e')
    (hb : e.machine.stored? ⟨form, e.machine.word⟩ = some bytes) :
    e'.machine = (e.machine.poke e.machine.i bytes).advance := by
  obtain ⟨a, hs⟩ := h.completes
  exact (stores_of_step h.idle (ofWord_of_transfer hk hform h.word) hb hs).2

theorem CarriesOut.stores_registers (h : e.CarriesOut (0xF055 + 0x100 * x) e') :
    e'.machine = (e.machine.poke e.machine.i (e.machine.lowRegisters x)).advance := by
  have hm := CarriesOut.stores (k := 0x55) (by decide) rfl h rfl
  rw [x_of_transfer (k := 0x55) (by decide) h.word] at hm
  exact hm

theorem CarriesOut.stores_digits (h : e.CarriesOut (0xF033 + 0x100 * x) e') :
    e'.machine =
      (e.machine.poke e.machine.i (Machine.decimalDigits (e.machine.v.get x))).advance := by
  have hm := CarriesOut.stores (k := 0x33) (by decide) rfl h rfl
  rw [x_of_transfer (k := 0x33) (by decide) h.word] at hm
  exact hm

/-! ## Round trips -/

/-- Registers that were stored are loaded again, wherever the program and the registers have gone in
between. -/
theorem restored_of_stored {l : Engine} (h : e.CarriesOut (0xF055 + 0x100 * x) e')
    (ha : l.machine.awaiting = none) (hw : l.machine.word = 0xF065 + 0x100 * x)
    (hi : l.machine.i % 0x1000 = e.machine.i % 0x1000)
    (hbytes : ∀ k : Nat, k ≤ x →
      l.machine.peekByte (e.machine.i + k) = e'.machine.peekByte (e.machine.i + k)) :
    l.CarriesOut (0xF065 + 0x100 * x) l.next ∧
      (∀ k ≤ x, l.next.machine.v.get k = e.machine.v.get k) ∧
      (∀ k, x < k → l.next.machine.v.get k = l.machine.v.get k ∧
        e'.machine.v.get k = e.machine.v.get k) ∧
      l.next.machine.i = l.machine.i ∧ e'.machine.i = e.machine.i := by
  obtain ⟨hload, hl⟩ := carriesOut_load ha hw
  have he := h.stores_registers
  have hlength := e.machine.length_lowRegisters x
  refine ⟨hload, ?_, ?_, ?_, ?_⟩
  · intro k hk
    have hread : l.machine.peekByte (l.machine.i + k.val) = e'.machine.peekByte (e.machine.i + k.val) := by
      rw [← hbytes k.val hk]
      simp only [Machine.peekByte_add, Memory.wrap, hi]
    have hkept : e'.machine.memory =
        (e.machine.poke e.machine.i (e.machine.lowRegisters x)).memory := by
      rw [he, Machine.advance_memory]
    have hlt : k.val < (e.machine.lowRegisters x).length := by omega
    rw [hl, Machine.advance_v, Machine.get_loadRegisters l.machine hk, hread,
      Machine.peekByte_congr hkept, Machine.peekByte_poke (by omega) hlt,
      Machine.getElem_lowRegisters]
  · intro k hk
    constructor
    · rw [hl, Machine.advance_v]
      exact Machine.v_loadRegisters (Fin.not_le.mpr hk)
    · rw [he, Machine.advance_v, Machine.poke_v]
  · rw [hl, Machine.advance_i, Machine.loadRegisters_i]
  · rw [he, Machine.advance_i, Machine.poke_i]

/-- Registers that were loaded are what is in memory already. -/
theorem memory_of_loaded {f g : Engine} (hload : e.CarriesOut (0xF065 + 0x100 * x) f)
    (hstore : f.CarriesOut (0xF055 + 0x100 * x) g) : g.machine.memory = e.machine.memory := by
  obtain ⟨-, hf⟩ := carriesOut_load hload.idle hload.word
  rw [← hload.eq_next] at hf
  have hmemory : f.machine.memory = e.machine.memory := by
    rw [hf, Machine.advance_memory, Machine.loadRegisters_memory]
  have hindex : f.machine.i = e.machine.i := by
    rw [hf, Machine.advance_i, Machine.loadRegisters_i]
  have hv {k : Fin 16} (hk : k ≤ x) : f.machine.v.get k = e.machine.peekByte (e.machine.i + k.val) := by
    rw [hf, Machine.advance_v]
    exact Machine.get_loadRegisters e.machine hk
  have hsame : (f.machine.poke f.machine.i (f.machine.lowRegisters x)).memory = f.machine.memory := by
    refine Machine.poke_of_peekByte fun k hk => ?_
    have hlength := f.machine.length_lowRegisters x
    obtain ⟨j, rfl⟩ : ∃ j : Fin 16, j.val = k := ⟨⟨k, by omega⟩, rfl⟩
    rw [Machine.getElem_lowRegisters f.machine hk, hv (by omega), Machine.peekByte_congr hmemory, hindex]
  have hg : g.machine.memory = (f.machine.poke f.machine.i (f.machine.lowRegisters x)).memory := by
    rw [hstore.stores_registers, Machine.advance_memory]
  rw [hg, hsame, hmemory]

/-- **Transfers between registers and memory.** A load undoes the store of as many registers, from any index
that stands for the same address, and a store undoes the load before it; digits are those of the byte. -/
theorem transfers_round_trip :
    (∀ (x : Fin 16) (e e' l : Engine), e.CarriesOut (0xF055 + 0x100 * x) e' →
      l.machine.awaiting = none → l.machine.word = 0xF065 + 0x100 * x →
      l.machine.i % 0x1000 = e.machine.i % 0x1000 →
      (∀ k : Nat, k ≤ x →
        l.machine.peekByte (e.machine.i + k) = e'.machine.peekByte (e.machine.i + k)) →
      ∃ l', l.CarriesOut (0xF065 + 0x100 * x) l' ∧
        (∀ k ≤ x, l'.machine.v.get k = e.machine.v.get k) ∧
        (∀ k, x < k → l'.machine.v.get k = l.machine.v.get k ∧
          e'.machine.v.get k = e.machine.v.get k) ∧
        l'.machine.i = l.machine.i ∧ e'.machine.i = e.machine.i) ∧
    (∀ (x : Fin 16) (e f g : Engine), e.CarriesOut (0xF065 + 0x100 * x) f →
      f.CarriesOut (0xF055 + 0x100 * x) g → g.machine.memory = e.machine.memory) ∧
    ∀ (x : Fin 16) (e e' : Engine), e.CarriesOut (0xF033 + 0x100 * x) e' →
      e'.machine.DecimalAt e.machine.i (e.machine.v.get x) := by
  refine ⟨?_, ?_, ?_⟩
  · intro x e e' l h ha hw hi hbytes
    exact ⟨l.next, restored_of_stored h ha hw hi hbytes⟩
  · intro x e f g hload hstore
    exact memory_of_loaded hload hstore
  · intro x e e' h
    refine Machine.decimalAt_of_poke (m := e.machine) ?_
    rw [h.stores_digits, Machine.advance_memory]

/-- Three registers saved, loaded and saved again, and the digits of the last of them. -/
def savesThree : Engine where
  machine := { Machine.fresh with
    memory := Memory.fresh.store Memory.programStart
      [0xF2, 0x55, 0xF2, 0x65, 0xF2, 0x55, 0xF2, 0x33]
    v := #v[0x01, 0xA7, 0xFF, 0x09, 0, 0, 0, 0, 0, 0, 0, 0, 0, 0, 0, 0]
    i := 0x1300 }
  random := .ofBytes #[]
  trace := false
  notes := #[]

/-- With the registers cleared, and without the high bits of the index. -/
def cleared (e : Engine) : Engine :=
  { e with machine := { e.machine with v := Machine.fresh.v, i := e.machine.i % 0x1000 } }

theorem peekByte_cleared (e : Engine) (a : Int) : e.cleared.machine.peekByte a = e.machine.peekByte a :=
  Machine.peekByte_congr rfl a

def clearedThree : Engine :=
  savesThree.next.cleared

theorem savesThree_restores :
    ∃ saved restored again digits, savesThree.CarriesOut 0xF255 saved ∧
      clearedThree.CarriesOut 0xF265 restored ∧ restored.CarriesOut 0xF255 again ∧
      again.CarriesOut 0xF233 digits ∧
      (∀ k ≤ (2 : Fin 16), restored.machine.v.get k = savesThree.machine.v.get k) ∧
      again.machine.memory = clearedThree.machine.memory ∧
      digits.machine.DecimalAt again.machine.i (again.machine.v.get 2) := by
  have hsave : savesThree.CarriesOut (0xF055 + 0x100 * (2 : Fin 16)) savesThree.next :=
    carriesOut_next (by decide +kernel)
  have hbytes (a : Int) : clearedThree.machine.peekByte a = savesThree.next.machine.peekByte a := by
    rw [clearedThree, peekByte_cleared]
  obtain ⟨hidle, hword, hindex⟩ : clearedThree.machine.awaiting = none ∧
      clearedThree.machine.word = 0xF065 + 0x100 * (2 : Fin 16) ∧
      clearedThree.machine.i % 0x1000 = savesThree.machine.i % 0x1000 := by decide +kernel
  obtain ⟨restored, hload, hsame, -, -, -⟩ := transfers_round_trip.1 2 savesThree savesThree.next
    clearedThree hsave hidle hword hindex fun _ _ => hbytes _
  have hnext := hload.eq_next
  rw [hnext] at hload hsame
  have hstore : clearedThree.next.CarriesOut (0xF055 + 0x100 * (2 : Fin 16)) clearedThree.next.next :=
    carriesOut_next (by decide +kernel)
  have hdigits : clearedThree.next.next.CarriesOut (0xF033 + 0x100 * (2 : Fin 16))
      clearedThree.next.next.next :=
    carriesOut_next (by decide +kernel)
  exact ⟨_, _, _, _, hsave, hload, hstore, hdigits, hsame,
    transfers_round_trip.2.1 2 _ _ _ hload hstore, transfers_round_trip.2.2 2 _ _ hdigits⟩

end Engine

end Chip8
