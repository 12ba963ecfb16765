import Chip8.Proofs.Footprint
import Chip8.Proofs.Protection
import Chip8.Proofs.Timers

/-!
# Chip8.Proofs.IndexBits

I is an address of twelve bits that is kept in sixteen. Sprites, stores and loads take each address from
its twelve low bits, and an addition to I that runs over sixteen bits runs over twelve as well; so the
four high bits are never seen.

`high_index_bits_unseen`: two engines within the bounds that differ in these bits only
(`Engine.SameLowIndex`) answer and fail alike under any inputs, and differ in nothing else afterwards.
-/

namespace Chip8

namespace Memory

theorem wrap_congr {a b : Int} (h : a % 0x1000 = b % 0x1000) : wrap a = wrap b := by
  rw [wrap, wrap, h]

theorem wrap_add_congr {a b : Int} (h : a % 0x1000 = b % 0x1000) (k : Nat) :
    wrap (a + k) = wrap (b + k) := by
  rw [wrap_add, wrap_add, wrap_congr h]

end Memory

namespace Machine

variable {m m' : Machine} {r r' : RandomSource} {ins : Instruction} {i : Int}

def withIndex (m : Machine) (i : Int) : Machine :=
  { m with i }

theorem spriteRows_withIndex (h : i % 0x1000 = m.i % 0x1000) (n : Nat) :
    (m.withIndex i).spriteRows n = m.spriteRows n := by
  have hwrap : Memory.wrap (m.withIndex i).i = Memory.wrap m.i := Memory.wrap_congr h
  simp only [spriteRows, peek, hwrap]
  rfl

theorem loadRegisters_withIndex (h : i % 0x1000 = m.i % 0x1000) (x : Fin 16) :
    (m.withIndex i).loadRegisters x = (m.loadRegisters x).withIndex i := by
  have hbyte (k : Nat) : (m.withIndex i).peekByte ((m.withIndex i).i + k) = m.peekByte (m.i + k) := by
    have hwrap : Memory.wrap ((m.withIndex i).i + k) = Memory.wrap (m.i + k) :=
      Memory.wrap_add_congr h k
    simp only [peekByte, hwrap]
    rfl
  simp only [loadRegisters, hbyte]
  rfl

theorem firstProtected?_withIndex (h : i % 0x1000 = m.i % 0x1000) (n : Nat) :
    (m.withIndex i).firstProtected? n = m.firstProtected? n := by
  have hwrap (k : Nat) : Memory.wrap ((m.withIndex i).i + k) = Memory.wrap (m.i + k) :=
    Memory.wrap_add_congr h k
  simp only [firstProtected?, hwrap]

theorem poke_withIndex (h : i % 0x1000 = m.i % 0x1000) (bytes : List UInt8) :
    (m.withIndex i).poke (m.withIndex i).i bytes = (m.poke m.i bytes).withIndex i := by
  have hwrap : Memory.wrap (m.withIndex i).i = Memory.wrap m.i := Memory.wrap_congr h
  simp only [poke, hwrap]
  rfl

theorem obey_withIndex (h : i % 0x1000 = m.i % 0x1000) (hf : ins.form ∉ [.ldI, .addIVx, .ldFVx]) :
    (m.withIndex i).obey ins = (m.obey ins).withIndex i := by
  cases hform : ins.form
  case ldI | addIVx | ldFVx => simp [hform] at hf
  case drw =>
    simp only [obey, hform, drawSprite_eq, spriteRows_withIndex h]
    rfl
  case ldVxMem =>
    simp only [obey, hform, loadRegisters_withIndex h]
    rfl
  all_goals simp only [obey, hform] <;> rfl

/-- An instruction that does not set I uses the address only that it stands for. -/
theorem unseen_withIndex (h : i % 0x1000 = m.i % 0x1000)
    (hf : ins.form ∉ [.ldI, .addIVx, .ldFVx]) : m.Unseen ins (·.withIndex i) where
  v := rfl
  sp := rfl
  keypad := rfl
  delay _ := rfl
  firstProtected? := firstProtected?_withIndex h
  leave _ _ := rfl
  enter _ _ := rfl
  setV _ _ := rfl
  wait _ := rfl
  store bytes := by
    rw [poke_withIndex h]
    rfl
  obey := obey_withIndex h hf

/-- An instruction that sets I sets it to indices that stand for the same address. -/
theorem obey_withIndex_of_sets (h : i % 0x1000 = m.i % 0x1000)
    (hf : ins.form ∈ [.ldI, .addIVx, .ldFVx]) :
    ∃ j, (m.withIndex i).obey ins = (m.obey ins).withIndex j ∧
      j % 0x1000 = (m.obey ins).i % 0x1000 := by
  simp only [List.mem_cons, List.not_mem_nil, or_false] at hf
  obtain hf | hf | hf := hf
  · simp only [obey, hf]
    exact ⟨ins.nnn, rfl, rfl⟩
  · simp only [obey, hf]
    refine ⟨(i + m.v[ins.x].toNat) % 0x10000, rfl, ?_⟩
    simp only [advance, jump]
    omega
  · simp only [obey, hf]
    exact ⟨Memory.glyphSize * m.v[ins.x].toNat, rfl, rfl⟩

theorem carryOut_withIndex (h : i % 0x1000 = m.i % 0x1000) (r : RandomSource) (ins : Instruction) :
    ∃ j, (m.withIndex i).carryOut r ins =
        ((m.carryOut r ins).map fun p => (p.1.withIndex j, p.2)) ∧
      ∀ m' r', m.carryOut r ins = .ok (m', r') → j % 0x1000 = m'.i % 0x1000 := by
  by_cases hf : ins.form ∈ [.ldI, .addIVx, .ldFVx]
  · have hobey (n : Machine) : n.carryOut r ins = .ok (n.obey ins, r) := by
      simp only [List.mem_cons, List.not_mem_nil, or_false] at hf
      obtain hf | hf | hf := hf <;> simp only [carryOut, hf]
    obtain ⟨j, hj, hindex⟩ := obey_withIndex_of_sets h hf
    rw [hobey, hobey, hj]
    refine ⟨j, rfl, ?_⟩
    intro m' r' hc
    cases hc
    exact hindex
  · refine ⟨i, carryOut_of_unseen (unseen_withIndex h hf), ?_⟩
    intro m' r' hc
    have hrest := congrArg (·.2.2.2.2) (rest_of_carryOut hc).1
    have hi : m'.i = m.i := hrest.trans (obey_i hf)
    rw [hi, h]

theorem cycle_withIndex (h : i % 0x1000 = m.i % 0x1000) (r : RandomSource) :
    ∃ j, (m.withIndex i).cycle r = ((m.cycle r).map fun p => (p.1, p.2.1.withIndex j, p.2.2)) ∧
      ∀ a m' r', m.cycle r = .ok (a, m', r') → j % 0x1000 = m'.i % 0x1000 := by
  have hwait : (m.withIndex i).awaiting = m.awaiting := rfl
  have hword : (m.withIndex i).word = m.word := rfl
  have hkeys : (m.withIndex i).keypad = m.keypad := rfl
  simp only [cycle, hwait, hword, hkeys]
  cases ha : m.awaiting with
  | some x =>
    refine ⟨i, ?_, ?_⟩
    · dsimp only
      cases m.keypad.first? with
      | none => rfl
      | some key => cases Instruction.ofWord? m.word <;> rfl
    · intro a m' r' hc
      dsimp only at hc
      split at hc <;> cases hc <;> exact h
  | none =>
    cases hd : Instruction.ofWord? m.word with
    | none => exact ⟨i, rfl, fun a m' r' hc => by cases hc⟩
    | some ins =>
      obtain ⟨j, hj, hindex⟩ := carryOut_withIndex h r ins
      refine ⟨j, ?_, ?_⟩
      · simp only [hj]
        cases m.carryOut r ins <;> rfl
      · intro a m' r' hc
        dsimp only at hc
        split at hc
        · cases hc
        · rename_i hco
          cases hc
          exact hindex _ _ hco

end Machine

namespace Engine

variable {e f : Engine}

/-- The same but for the bits of I above the twelfth, and for what is noted down. -/
structure SameLowIndex (e f : Engine) : Prop where
  machine : f.machine = { e.machine with i := f.machine.i }
  index : f.machine.i % 0x1000 = e.machine.i % 0x1000
  random : f.random = e.random

theorem sameLowIndex_next (he : e.machine.WellFormed) (hf : f.machine.WellFormed)
    (hs : e.SameLowIndex f) : f.answer = e.answer ∧ e.next.SameLowIndex f.next := by
  obtain ⟨j, hcycle, hindex⟩ := Machine.cycle_withIndex hs.index e.random
  have hmachine : f.machine = e.machine.withIndex f.machine.i := hs.machine
  have hfault (cause : Cause) : f.faultHere cause = e.faultHere cause := by
    simp only [faultHere]
    rw [hmachine]
    rfl
  rw [← hmachine] at hcycle
  obtain ⟨hanswer, ⟨hkept, hkept'⟩ | ⟨⟨a, ha⟩, hnext⟩⟩ :=
    next_of_mapped (·.withIndex j) he hf hs.random hfault hcycle
  · obtain ⟨hme, hre⟩ := core_eq_iff.mp hkept
    obtain ⟨hmf, hrf⟩ := core_eq_iff.mp hkept'
    refine ⟨hanswer, ?_, ?_, ?_⟩
    · rw [hmf, hme]
      exact hs.machine
    · rw [hmf, hme]
      exact hs.index
    · rw [hrf, hre]
      exact hs.random
  · obtain ⟨hm, hr⟩ := Prod.mk.inj hnext
    refine ⟨hanswer, ?_, ?_, hr⟩
    · rw [hm]
      rfl
    · rw [hm]
      exact hindex a _ _ ha

/-- Between two cycles nothing looks at I. -/
theorem sameLowIndex_accept (hs : e.SameLowIndex f) {i : Input} (hi : i ≠ .cycle) :
    (e.accept i).SameLowIndex (f.accept i) := by
  obtain ⟨hmachine, hindex, hrandom⟩ := hs
  cases i with
  | cycle => exact absurd rfl hi
  | tick => exact ⟨by simp only [accept]; rw [hmachine]; rfl, hindex, hrandom⟩
  | releaseAll => exact ⟨by simp only [accept]; rw [hmachine]; rfl, hindex, hrandom⟩
  | holdKey key held =>
    simp only [accept, Machine.holdKey]
    cases key.resolve with
    | ok k => exact ⟨by rw [hmachine]; rfl, hindex, hrandom⟩
    | error x => exact ⟨hmachine, hindex, hrandom⟩

/-- **The high bits of I are never seen.** -/
theorem high_index_bits_unseen (e f : Engine) (he : e.machine.WellFormed)
    (hf : f.machine.WellFormed) (hs : e.SameLowIndex f) (inputs : List Input) :
    f.answers inputs = e.answers inputs ∧ (e.drive inputs).SameLowIndex (f.drive inputs) := by
  -- on the inputs: each leaves indices that stand for the same address
  induction inputs generalizing e f with
  | nil => exact ⟨rfl, hs⟩
  | cons i inputs ih =>
    have he' := wellFormed_accept he i
    have hf' := wellFormed_accept hf i
    cases i with
    | cycle =>
      obtain ⟨hanswer, hnext⟩ := sameLowIndex_next he hf hs
      obtain ⟨hanswers, hrest⟩ := ih _ _ he' hf' hnext
      refine ⟨?_, hrest⟩
      simp only [answers]
      rw [hanswer]
      exact congrArg (e.answer :: ·) hanswers
    | tick => exact ih _ _ he' hf' (sameLowIndex_accept hs (by simp))
    | holdKey key held => exact ih _ _ he' hf' (sameLowIndex_accept hs (by simp))
    | releaseAll => exact ih _ _ he' hf' (sameLowIndex_accept hs (by simp))

/-- Adds V1 to I, draws what is there and stores two registers there. -/
def indexAt (i : Int) : Engine where
  machine := { Machine.fresh with
    memory := Memory.fresh.store Memory.programStart [0xF1, 0x1E, 0xD0, 0x05, 0xF1, 0x55]
    v := Machine.fresh.v.set 1 3
    i }
  random := .ofBytes #[]
  trace := false
  notes := #[]

/-- From 0xFFE the addition goes past 0xFFF, and from 0xFFFE past 0xFFFF; then both draw a row of pixels,
and both are refused the store. -/
theorem indexAt_agrees :
    (indexAt 0x0FFE).machine.WellFormed ∧ (indexAt 0xFFFE).machine.WellFormed ∧
      (indexAt 0x0FFE).SameLowIndex (indexAt 0xFFFE) ∧
      (indexAt 0xFFFE).answers [.cycle, .cycle, .cycle] =
        (indexAt 0x0FFE).answers [.cycle, .cycle, .cycle] ∧
      ((indexAt 0x0FFE).drive [.cycle, .cycle, .cycle]).SameLowIndex
        ((indexAt 0xFFFE).drive [.cycle, .cycle, .cycle]) ∧
      ((indexAt 0x0FFE).after 2).machine.i = 0x1001 ∧ ((indexAt 0xFFFE).after 2).machine.i = 1 ∧
      ((indexAt 0x0FFE).after 2).machine.drawn = true ∧
      ((indexAt 0x0FFE).after 2).completes = false := by
  have hw (i : Int) (hi : 0 ≤ i ∧ i < 0x10000) : (indexAt i).machine.WellFormed :=
    ((Machine.wellFormed_fresh.setI hi).setRegisters _).setMemory _
  have he := hw 0x0FFE (by decide)
  have hf := hw 0xFFFE (by decide)
  have hs : (indexAt 0x0FFE).SameLowIndex (indexAt 0xFFFE) := ⟨rfl, rfl, rfl⟩
  obtain ⟨hanswers, hsame⟩ := high_index_bits_unseen _ _ he hf hs [.cycle, .cycle, .cycle]
  exact ⟨he, hf, hs, hanswers, hsame, by decide +kernel, by decide +kernel, by decide +kernel,
    by decide +kernel⟩

end Engine
end Chip8
