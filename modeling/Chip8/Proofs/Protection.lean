import Chip8.Proofs.Drive
import Chip8.Proofs.Operation

/-!
# Chip8.Proofs.Protection

The memory below the program area. Only stores write to memory, and a store is refused if one of its
addresses, which wrap, lies below the program area; so what lies there stays as it was at power on,
glyphs and zeros.

`protected_area`: a machine that was powered on, loaded and then driven in any way has its protected
area intact. A store of `n` bytes from `a` on is refused if and only if `a` lies below the program area
or the store would pass the end of memory, with the first protected address as the target. The store is
looked at when it is carried out: a pending key wait is polled first, whatever word is there.
-/

namespace Chip8

namespace Memory

theorem wrap_add (i : Int) (k : Nat) : wrap (i + k) = (wrap i + k) % 0x1000 := by
  simp only [wrap]
  omega

theorem read_write (m : Memory) (a c : Nat) (b : UInt8) :
    (m.write a b).read c = if a % 0x1000 = c % 0x1000 then b else m.read c := by
  simp only [write, read, Vector.getElem_set]

/-- A store leaves every other address as it was. -/
theorem read_store_of_ne {m : Memory} {a c : Nat} {bytes : List UInt8}
    (h : ∀ k < bytes.length, (a + k) % 0x1000 ≠ c % 0x1000) :
    (m.store a bytes).read c = m.read c := by
  induction bytes generalizing m a with
  | nil => rfl
  | cons b bytes ih =>
    have hfirst : a % 0x1000 ≠ c % 0x1000 := h 0 (Nat.succ_pos _)
    have hrest : ∀ k < bytes.length, (a + 1 + k) % 0x1000 ≠ c % 0x1000 := by
      intro k hk
      have := h (k + 1) (Nat.succ_lt_succ hk)
      rwa [Nat.add_right_comm]
    rw [store, ih hrest, read_write, if_neg hfirst]

/-- What a store that does not wrap puts where. -/
theorem read_store {m : Memory} {a c : Nat} {bytes : List UInt8} (h : a + bytes.length ≤ 0x1000)
    (hc : c < 0x1000) :
    (m.store a bytes).read c = if a ≤ c then bytes.getD (c - a) (m.read c) else m.read c := by
  induction bytes generalizing m a with
  | nil => simp only [store, List.getD_nil, ite_self]
  | cons b bytes ih =>
    rw [List.length_cons] at h
    rw [store, ih (by omega), read_write]
    have hmod : a % 0x1000 = c % 0x1000 ↔ a = c := by omega
    simp only [hmod]
    obtain hlt | rfl | hgt := Nat.lt_trichotomy a c
    · obtain ⟨k, rfl⟩ := Nat.exists_eq_add_of_lt hlt
      have h1 : a + k + 1 - (a + 1) = k := by omega
      have h2 : a + k + 1 - a = k + 1 := by omega
      rw [if_pos (by omega), if_neg (by omega), if_pos (by omega), h1, h2, List.getD_cons_succ]
    · rw [if_neg (by omega), if_pos rfl, if_pos (Nat.le_refl a), Nat.sub_self, List.getD_cons_zero]
    · rw [if_neg (by omega), if_neg (by omega), if_neg (by omega)]

/-- The glyphs go to the start of memory, and nothing else does. -/
theorem read_withGlyphs (m : Memory) {c : Nat} (hc : c < 0x1000) :
    m.withGlyphs.read c = glyphs.getD c (m.read c) := by
  have h : 0 + glyphs.length ≤ 0x1000 := by decide
  rw [withGlyphs, read_store h hc, if_pos (Nat.zero_le c), Nat.sub_zero]

/-- Where the glyphs are already, putting them there again changes nothing. -/
theorem read_withGlyphs_of_eq {m : Memory} {c : Nat} {b : UInt8}
    (h : m.read c = glyphs.getD c b) (hc : c < 0x1000) : m.withGlyphs.read c = glyphs.getD c b := by
  rw [read_withGlyphs m hc, h]
  simp only [List.getD_eq_getElem?_getD]
  cases glyphs[c]? <;> rfl

/-- Glyphs, and zeros above them. -/
theorem read_fresh {c : Nat} (hc : c < 0x1000) : fresh.read c = glyphs.getD c 0 := by
  have hzero : Memory.read (Vector.replicate 4096 0) c = 0 := by
    simp only [read, Vector.getElem_replicate]
  rw [fresh, read_withGlyphs _ hc, hzero]

end Memory

namespace Instruction

/-- How many bytes a word stores at I: three for Fx33, and x + 1 for Fx55. -/
def storeSize? (w : Nat) : Option Nat :=
  if w / 0x1000 = 0xF ∧ w % 0x100 = 0x33 then some 3
  else if w / 0x1000 = 0xF ∧ w % 0x100 = 0x55 then some (w / 0x100 % 0x10 + 1)
  else none

end Instruction

namespace Machine

variable {m m' : Machine} {r r' : RandomSource} {n : Nat}

/-- A word that stores decodes to an instruction that stores as many bytes. -/
theorem stored_of_storeSize (h : Instruction.storeSize? m.word = some n) :
    ∃ ins bytes, Instruction.ofWord? m.word = some ins ∧ m.stored? ins = some bytes ∧
      bytes.length = n := by
  simp only [Instruction.storeSize?] at h
  split at h
  · rename_i hw
    cases h
    refine ⟨⟨.ldBVx, m.word⟩, _, ?_, rfl, rfl⟩
    simp only [Instruction.ofWord?, Form.ofWord?, hw.1, hw.2, Form.ofTransfer, Option.map_some]
  · split at h
    · rename_i hw
      cases h
      refine ⟨⟨.ldMemVx, m.word⟩, _, ?_, rfl, ?_⟩
      · simp only [Instruction.ofWord?, Form.ofWord?, hw.1, hw.2, Form.ofTransfer, Option.map_some]
      · simp only [Instruction.x, List.length_take, Vector.length_toList]
        omega
    · cases h

theorem pos_of_storeSize (h : Instruction.storeSize? m.word = some n) : 0 < n := by
  simp only [Instruction.storeSize?] at h
  split at h
  · cases h
    decide
  · split at h <;> cases h
    exact Nat.succ_pos _

/-- The first protected address in the order in which a store would write. -/
theorem firstProtected?_eq_some_iff {target : Nat} :
    m.firstProtected? n = some target ↔
      ∃ j < n, target = (Memory.wrap m.i + j) % 0x1000 ∧ target < 0x200 ∧
        ∀ k < j, 0x200 ≤ (Memory.wrap m.i + k) % 0x1000 := by
  simp only [firstProtected?, List.find?_map, Option.map_eq_some_iff, List.find?_range_eq_some,
    Memory.wrap_add, Function.comp_apply, List.mem_range, decide_eq_true_eq, Bool.not_eq_true',
    decide_eq_false_iff_not, Nat.not_lt]
  simp only [Memory.programStart]
  constructor
  · rintro ⟨j, ⟨hlow, hj, hbefore⟩, rfl⟩
    exact ⟨j, hj, rfl, hlow, hbefore⟩
  · rintro ⟨j, hj, rfl, hlow, hbefore⟩
    exact ⟨j, ⟨hlow, hj, hbefore⟩, rfl⟩

theorem firstProtected?_eq_none_iff :
    m.firstProtected? n = none ↔ ∀ k < n, 0x200 ≤ (Memory.wrap m.i + k) % 0x1000 := by
  simp only [firstProtected?, List.find?_eq_none, List.forall_mem_map, List.mem_range,
    Memory.wrap_add, decide_eq_true_eq, Nat.not_lt]
  rfl

/-- A store of one byte or more has a protected address if it begins in the protected area or passes
the end of memory. -/
theorem firstProtected?_isSome_iff (hn : 0 < n) :
    (∃ target, m.firstProtected? n = some target) ↔
      Memory.wrap m.i < 0x200 ∨ 0x1000 < Memory.wrap m.i + n := by
  have ha := Memory.wrap_lt m.i
  rw [← Option.isSome_iff_exists, Option.isSome_iff_ne_none, Ne, firstProtected?_eq_none_iff]
  constructor
  · intro h
    refine Decidable.byContradiction fun hout => h fun k hk => ?_
    omega
  · intro h hall
    rcases h with hlow | hend
    · have := hall 0 hn
      omega
    · -- the store comes to address zero
      have := hall (0x1000 - Memory.wrap m.i) (by omega)
      omega

/-- A program is put where programs start. -/
theorem read_load {program : List UInt8} (hl : m.load program = .ok m') {c : Nat} (hc : c < 0x200) :
    m'.memory.read c = m.memory.read c := by
  simp only [load] at hl
  split at hl
  · rename_i hsize
    cases hl
    have hsize : Memory.programStart + program.length ≤ 0x1000 := by
      simp only [Memory.programCapacity, Memory.size, Memory.programStart] at hsize ⊢
      omega
    have hlow : ¬Memory.programStart ≤ c := by
      simp only [Memory.programStart]
      omega
    rw [Memory.read_store hsize (by omega), if_neg hlow]
  · cases hl

/-! ## What a cycle writes -/

/-- A store that is not refused writes to its own addresses only. -/
theorem read_poke {bytes : List UInt8} {c : Nat} (hp : m.firstProtected? bytes.length = none)
    (hc : c < 0x1000) (hout : c < Memory.wrap m.i ∨ Memory.wrap m.i + bytes.length ≤ c) :
    (m.poke m.i bytes).memory.read c = m.memory.read c := by
  rw [firstProtected?_eq_none_iff] at hp
  have ha := Memory.wrap_lt m.i
  -- no address wraps, for one that did would be protected
  have hend : Memory.wrap m.i + bytes.length ≤ 0x1000 := by
    refine Nat.le_of_not_lt fun hend => ?_
    have := hp (0x1000 - Memory.wrap m.i) (by omega)
    omega
  refine Memory.read_store_of_ne fun k hk => ?_
  omega

/-- A cycle writes nothing below the program area. -/
theorem read_of_turns {a : Option Instruction} (ht : m.Turns r a m' r') {c : Nat} (hc : c < 0x200) :
    m'.memory.read c = m.memory.read c := by
  cases ht with
  | waitsOn => rfl
  | takes => rfl
  | carries _ _ hco =>
    cases does_of_carryOut hco with
    | returns => rfl
    | calls => rfl
    | waits => rfl
    | keeps _ _ _ hk => exact congrArg (·.1.read c) hk
    | stores _ hp =>
      refine Memory.read_store_of_ne fun k hk => ?_
      have := firstProtected?_eq_none_iff.mp hp k hk
      omega

/-- The cycle of a store that is not refused writes to the addresses of the store only. -/
theorem read_of_turns_store {a : Option Instruction} {ins : Instruction} {bytes : List UInt8}
    (ht : m.Turns r a m' r') (hd : Instruction.ofWord? m.word = some ins)
    (hb : m.stored? ins = some bytes) {c : Nat} (hc : c < 0x1000)
    (hout : c < Memory.wrap m.i ∨ Memory.wrap m.i + bytes.length ≤ c) :
    m'.memory.read c = m.memory.read c := by
  cases ht with
  | waitsOn => rfl
  | takes => rfl
  | carries _ hd' hco =>
    rw [hd] at hd'
    cases hd'
    cases does_of_carryOut hco with
    | returns => rfl
    | calls => rfl
    | waits => rfl
    | keeps _ _ _ hk => exact congrArg (·.1.read c) hk
    | stores hb' hp =>
      rw [hb] at hb'
      cases hb'
      exact read_poke hp hc hout

/-- A store is refused for nothing but a protected address. -/
theorem protectedWrite_of_refuses {ins : Instruction} {cause : Cause} {bytes : List UInt8}
    (hr : m.Refuses ins cause) (hb : m.stored? ins = some bytes) :
    ∃ target, m.firstProtected? bytes.length = some target ∧ cause = .protectedWrite target := by
  cases hr with
  | machineCode hf | underflow hf | overflow hf =>
    simp only [stored?, hf] at hb
    cases hb
  | protectedWrite hb' hp =>
    rw [hb] at hb'
    cases hb'
    exact ⟨_, hp, rfl⟩

end Machine

namespace Engine

variable {e : Engine} {n : Nat}

theorem read_accept (h : e.machine.WellFormed) (i : Input) {c : Nat} (hc : c < 0x200) :
    (e.accept i).machine.memory.read c = e.machine.memory.read c := by
  obtain ⟨a, ht⟩ | ⟨delay, sound, keypad, he⟩ := accept_cases h i
  · exact Machine.read_of_turns ht hc
  · rw [he]

theorem read_drive (h : e.machine.WellFormed) (inputs : List Input) {c : Nat} (hc : c < 0x200) :
    (e.drive inputs).machine.memory.read c = e.machine.memory.read c := by
  induction inputs generalizing e with
  | nil => rfl
  | cons i inputs ih => rw [drive_cons, ih (wellFormed_accept h i), read_accept h i hc]

/-- A loaded machine that was powered on has glyphs and zeros below its program. -/
theorem read_loaded {program : List UInt8} {m : Machine} (hl : Machine.fresh.load program = .ok m)
    {c : Nat} (hc : c < 0x200) : m.memory.read c = Memory.glyphs.getD c 0 :=
  (Machine.read_load hl hc).trans (Memory.read_fresh (by omega))

/-- What becomes of a store of `n` bytes, with `a` the address that I stands for. -/
structure GuardsStore (e : Engine) (n a : Nat) : Prop where
  /-- It is refused if it is carried out and one of its addresses is protected. -/
  refused_iff : (∃ target, e.Raises (.protectedWrite target)) ↔
    e.machine.awaiting = none ∧ (a < 0x200 ∨ 0x1000 < a + n)
  /-- The target is the first protected address in the order of the bytes. -/
  target : ∀ target, e.Raises (.protectedWrite target) →
    ∃ j < n, target = ((a + j) % 0x1000 : Nat) ∧ (a + j) % 0x1000 < 0x200 ∧
      ∀ k < j, 0x200 ≤ (a + k) % 0x1000
  /-- Otherwise the cycle completes and writes to no other address. -/
  writes : (¬∃ target, e.Raises (.protectedWrite target)) →
    ∃ answer e', step e = .ok answer e' ∧
      ∀ c < 0x1000, c < a ∨ a + n ≤ c → e'.machine.memory.read c = e.machine.memory.read c

section Store

variable {ins : Instruction} {bytes : List UInt8} {cause : Cause}

/-- A store fails only by a protected address, and only when it is carried out. -/
theorem raises_store_iff (h : e.machine.WellFormed)
    (hd : Instruction.ofWord? e.machine.word = some ins) (hb : e.machine.stored? ins = some bytes) :
    e.Raises cause ↔ e.machine.awaiting = none ∧
      ∃ target, e.machine.firstProtected? bytes.length = some target ∧
        cause = .protectedWrite target := by
  rw [raises_iff h]
  constructor
  · intro hf
    cases hf with
    | undecoded _ hnone =>
      rw [hd] at hnone
      cases hnone
    | refused ha hd' hr =>
      rw [hd] at hd'
      cases hd'
      exact ⟨ha, Machine.protectedWrite_of_refuses hr hb⟩
  · rintro ⟨ha, target, hp, rfl⟩
    exact .refused ha hd (.protectedWrite hb hp)

theorem guardsStore (h : e.machine.WellFormed)
    (hs : Instruction.storeSize? e.machine.word = some n) :
    e.GuardsStore n (Memory.wrap e.machine.i) := by
  obtain ⟨ins, bytes, hd, hb, rfl⟩ := Machine.stored_of_storeSize hs
  have hpos := Machine.pos_of_storeSize hs
  constructor
  · rw [← Machine.firstProtected?_isSome_iff hpos]
    constructor
    · rintro ⟨target, hr⟩
      obtain ⟨ha, target, hp, -⟩ := (raises_store_iff h hd hb).mp hr
      exact ⟨ha, target, hp⟩
    · rintro ⟨ha, target, hp⟩
      exact ⟨target, (raises_store_iff h hd hb).mpr ⟨ha, target, hp, rfl⟩⟩
  · intro target hr
    obtain ⟨-, target, hp, ht⟩ := (raises_store_iff h hd hb).mp hr
    cases ht
    obtain ⟨j, hj, rfl, hlow, hbefore⟩ := Machine.firstProtected?_eq_some_iff.mp hp
    exact ⟨j, hj, rfl, hlow, hbefore⟩
  · intro hn
    obtain ⟨answer, e', hs⟩ | ⟨cause, hr⟩ := completes_or_raises h
    · refine ⟨answer, e', hs, fun c hc hout => ?_⟩
      exact Machine.read_of_turns_store (turns_of_step h hs) hd hb hc hout
    · obtain ⟨-, target, -, rfl⟩ := (raises_store_iff h hd hb).mp hr
      exact absurd ⟨_, hr⟩ hn

end Store

/-- **The protected area.** It never changes in a machine that was powered on, loaded and driven; and
exactly the stores that would reach it are refused, unless a key wait is polled in their place. -/
theorem protected_area :
    (∀ (program : List UInt8) (e : Engine), Machine.fresh.load program = .ok e.machine →
      ∀ (inputs : List Input) (c : Nat), c < 0x200 →
        (e.drive inputs).machine.memory.read c = e.machine.memory.read c ∧
        e.machine.memory.read c = Memory.glyphs.getD c 0) ∧
    ∀ (e : Engine) (n : Nat), e.machine.WellFormed →
      Instruction.storeSize? e.machine.word = some n →
      e.GuardsStore n (Memory.wrap e.machine.i) := by
  constructor
  · intro program e hl inputs c hc
    have h := Machine.wellFormed_fresh.load hl
    exact ⟨read_drive h inputs hc, read_loaded hl hc⟩
  · intro e n h hs
    exact guardsStore h hs

/-- I set to the last address but one, then a store of three digits, which would wrap to the glyphs. -/
def digitsAtEnd : Engine where
  machine := { Machine.fresh with
    memory := Memory.fresh.store Memory.programStart [0xAF, 0xFE, 0xF0, 0x33] }
  random := .ofBytes #[]
  trace := false
  notes := #[]

theorem digitsAtEnd_refused :
    (∃ target, (digitsAtEnd.drive [.cycle]).Raises (.protectedWrite target)) ∧
      ∀ c < 0x200, (digitsAtEnd.drive [.cycle]).machine.memory.read c = Memory.glyphs.getD c 0 := by
  have hl : Machine.fresh.load [0xAF, 0xFE, 0xF0, 0x33] = .ok digitsAtEnd.machine := rfl
  have hintact := protected_area.1 _ digitsAtEnd hl [.cycle]
  have h := wellFormed_drive (Machine.wellFormed_fresh.load hl) [.cycle]
  have hguards := protected_area.2 (digitsAtEnd.drive [.cycle]) 3 h (by decide +kernel)
  have hi : Memory.wrap (digitsAtEnd.drive [.cycle]).machine.i = 0xFFE := by decide +kernel
  rw [hi] at hguards
  refine ⟨hguards.refused_iff.mpr ⟨by decide +kernel, .inr (by decide)⟩, ?_⟩
  intro c hc
  obtain ⟨hkept, hloaded⟩ := hintact c hc
  rw [hkept, hloaded]

/-- A key wait whose instruction was replaced by a store to the glyphs. -/
def waitingAtStore : Engine :=
  ((Session.start (.ofBytes #[]) false).play
    [.load [0xF0, 0x0A], .step, .poke 0x200 [0xF0, 0x33]]).engine

/-- The cycle polls the keys, and no store is refused. -/
theorem waitingAtStore_polls :
    waitingAtStore.machine.WellFormed ∧
      Instruction.storeSize? waitingAtStore.machine.word = some 3 ∧
      Memory.wrap waitingAtStore.machine.i < 0x200 ∧
      ¬∃ target, waitingAtStore.Raises (.protectedWrite target) := by
  have h : waitingAtStore.machine.WellFormed :=
    Session.wellFormed_play (Session.wellFormed_start _ _) _
  refine ⟨h, by decide +kernel, by decide +kernel, ?_⟩
  rintro ⟨target, hr⟩
  have ha : waitingAtStore.machine.awaiting = some 0 := by decide +kernel
  cases (raises_iff h).mp hr with
  | refused hnone =>
    rw [ha] at hnone
    cases hnone

end Engine
end Chip8
