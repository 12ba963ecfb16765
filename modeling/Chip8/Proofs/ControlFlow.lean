import Chip8.Proofs.CallStack
import Chip8.Proofs.KeyWait

/-!
# Chip8.Proofs.ControlFlow

Where a completed cycle goes on. Most instructions go on to the next word (`Form.advances`); jumps, calls,
returns and skips do not, nor does Fx0A where no key is held.

* `Machine.successor` : where a word goes on, read from its nibbles and from the machine before the cycle.
* `Engine.Follows`    : a cycle carried a word out, and went on where it says.

`follows_word`: within the bounds, and where no key is awaited, a cycle that completes carried out the word
at the program counter, high byte first, and goes on where that word says.
-/

namespace Chip8

namespace Form

def advances : Form → Bool
  | ret | jp | call | seByte | sneByte | seReg | sneReg | jpV0 | skp | sknp | ldVxK => false
  | _ => true

end Form

namespace Machine

variable {m m' : Machine} {r r' : RandomSource} {ins : Instruction} {w : Nat}

def vx (m : Machine) (w : Nat) : UInt8 :=
  m.v.get (Fin.ofNat 16 (w / 0x100))

def vy (m : Machine) (w : Nat) : UInt8 :=
  m.v.get (Fin.ofNat 16 (w / 0x10))

/-- The key whose number is the low nibble of `b` is held. -/
def latch (m : Machine) (b : UInt8) : Bool :=
  m.keypad.get (Fin.ofNat 16 b.toNat)

def skips (m : Machine) (w : Nat) : Bool :=
  match w / 0x1000 with
  | 0x3 => (m.vx w).toNat = w % 0x100
  | 0x4 => (m.vx w).toNat ≠ w % 0x100
  | 0x5 => m.vx w = m.vy w
  | 0x9 => m.vx w ≠ m.vy w
  | 0xE => if w % 0x100 = 0x9E then m.latch (m.vx w) else !m.latch (m.vx w)
  | _ => false

def successor (m : Machine) (w : Nat) : Int :=
  if w / 0x1000 = 0x1 ∨ w / 0x1000 = 0x2 then w % 0x1000
  else if w / 0x1000 = 0xB then (w % 0x1000 + (m.v.get 0).toNat) % 0x1000
  else if w = 0x00EE then m.stack.get m.topSlot
  else if w / 0x1000 = 0xF ∧ w % 0x100 = 0x0A ∧ ∀ k : Fin 16, m.keypad.get k = false then m.pc
  else (m.pc + if m.skips w then 4 else 2) % 0x1000

/-! ## What a word says -/

section Words

variable {f : Form}

theorem successor_of_jump (h : w / 0x1000 = 0x1 ∨ w / 0x1000 = 0x2) :
    m.successor w = (w % 0x1000 : Nat) :=
  if_pos h

theorem successor_of_indexed (h : w / 0x1000 = 0xB) :
    m.successor w = (w % 0x1000 + (m.v.get 0).toNat) % 0x1000 := by
  rw [successor, if_neg (by omega), if_pos h]

theorem successor_of_return : m.successor 0x00EE = m.stack.get m.topSlot := by
  rw [successor, if_neg (by decide), if_neg (by decide), if_pos rfl]

theorem successor_of_wait (hw : Form.ofWord? w = some .ldVxK) (hk : ∀ k : Fin 16, m.keypad.get k = false) :
    m.successor w = m.pc := by
  obtain ⟨hfamily, hlow⟩ := Form.ofWord?_eq_ldVxK_iff.mp hw
  rw [successor, if_neg (by omega), if_neg (by omega), if_neg (by omega), if_pos ⟨hfamily, hlow, hk⟩]

theorem successor_of_onward (hw : Form.ofWord? w = some f) (hf : f ∉ [.jp, .call, .jpV0, .ret])
    (hk : f = .ldVxK → ∃ k : Fin 16, m.keypad.get k = true) :
    m.successor w = (m.pc + if m.skips w then 4 else 2) % 0x1000 := by
  have hfamily := Form.family_of_ofWord hw
  have hother : f.family ≠ 0x1 ∧ f.family ≠ 0x2 ∧ f.family ≠ 0xB := by
    cases f <;> simp [Form.family] at hf ⊢
  have hret : w ≠ 0x00EE := by
    intro he
    rw [Form.ofWord?_eq_ret_iff.mpr he] at hw
    cases hw
    simp at hf
  have hwait : ¬(w / 0x1000 = 0xF ∧ w % 0x100 = 0x0A ∧ ∀ k : Fin 16, m.keypad.get k = false) := by
    rintro ⟨hF, hlow, hnone⟩
    rw [Form.ofWord?_eq_ldVxK_iff.mpr ⟨hF, hlow⟩] at hw
    cases hw
    obtain ⟨k, hheld⟩ := hk rfl
    rw [hnone k] at hheld
    cases hheld
  rw [successor, if_neg (by omega), if_neg (by omega), if_neg hret, if_neg hwait]

theorem skips_of_advances (hw : Form.ofWord? w = some f) (hf : f.advances = true ∨ f = .ldVxK) :
    m.skips w = false := by
  have hfamily := Form.family_of_ofWord hw
  have hother : f.family ∉ [0x3, 0x4, 0x5, 0x9, 0xE] := by
    cases f <;> simp [Form.family, Form.advances] at hf ⊢
  rw [← hfamily] at hother
  simp only [skips]
  split <;> simp_all

end Words

/-! ## What an instruction does -/

theorem skipIf_pc (m : Machine) (c : Bool) :
    ((m.skipIf c).pc : Int) = (m.pc + if c then 4 else 2) % 0x1000 := by
  simp only [skipIf, jump_pc, Memory.wrap]
  omega

theorem pc_of_advances (hc : m.carryOut r ins = .ok (m', r')) (hf : ins.form.advances = true) :
    m'.pc = (m.pc + 2) % 0x1000 := by
  have hstore {bytes : List UInt8} (hs : (m.guardedStore bytes).map (·, r) = .ok (m', r')) :
      m'.pc = (m.pc + 2) % 0x1000 := by
    simp only [guardedStore] at hs
    split at hs <;> cases hs
    exact advance_pc m
  cases hform : ins.form
  case ret | jp | call | seByte | sneByte | seReg | sneReg | jpV0 | skp | sknp | ldVxK =>
    simp only [hform, Form.advances] at hf
    cases hf
  all_goals simp only [carryOut, obey, hform] at hc
  case sys => cases hc
  case ldBVx | ldMemVx => exact hstore hc
  case drw =>
    cases hc
    rw [advance_pc, drawSprite_eq]
    rfl
  case ldVxMem =>
    cases hc
    rw [advance_pc, loadRegisters]
  all_goals
    cases hc
    exact advance_pc m

theorem beq_kk (b : UInt8) : (b == ins.kk) = decide (b.toNat = ins.opcode % 0x100) := by
  have hkk : b = ins.kk ↔ b.toNat = ins.opcode % 0x100 := by
    rw [Instruction.kk, ← UInt8.toNat_inj, UInt8.toNat_ofNat']
  rw [Bool.eq_iff_iff, beq_iff_eq, decide_eq_true_iff, hkk]

/-- The condition of a skip is that of its word. -/
theorem obey_skip (hw : Form.ofWord? ins.opcode = some ins.form)
    (hf : ins.form ∈ [.seByte, .sneByte, .seReg, .sneReg, .skp, .sknp]) :
    m.obey ins = m.skipIf (m.skips ins.opcode) := by
  have hfamily := Form.family_of_ofWord hw
  have hx : m.vx ins.opcode = m.v[ins.x] := rfl
  have hy : m.vy ins.opcode = m.v[ins.y] := rfl
  have hkey (b : UInt8) : m.latch b = m.keypad[b.toNat % 16] := rfl
  cases hform : ins.form
  all_goals rw [hform] at hfamily hw hf
  case seByte => simp only [obey, hform, skips, hfamily, Form.family, hx, beq_kk]
  case sneByte => simp only [obey, hform, skips, hfamily, Form.family, hx, bne, beq_kk, decide_not]
  case seReg =>
    simp only [obey, hform, skips, hfamily, Form.family, hx, hy]
    rfl
  case sneReg =>
    simp only [obey, hform, skips, hfamily, Form.family, hx, hy, bne, decide_not]
    rfl
  case skp =>
    have hlow : ins.opcode % 0x100 = 0x9E := by simpa using Form.low_of_keyTest hw rfl
    simp only [obey, hform, skips, hfamily, Form.family, hx, hlow, if_true, hkey]
  case sknp =>
    have hlow : ins.opcode % 0x100 = 0xA1 := by simpa using Form.low_of_keyTest hw rfl
    have hne : ins.opcode % 0x100 ≠ 0x9E := by omega
    simp only [obey, hform, skips, hfamily, Form.family, hx, if_neg hne, hkey]
  all_goals simp at hf

theorem pc_of_jump (hw : Form.ofWord? ins.opcode = some ins.form) (hf : ins.form ∈ [.jp, .call, .jpV0])
    (hc : m.carryOut r ins = .ok (m', r')) : (m'.pc : Int) = m.successor ins.opcode := by
  have hfamily := Form.family_of_ofWord hw
  cases hform : ins.form
  all_goals
    rw [hform] at hfamily hf
    simp only [carryOut, hform] at hc
  case jp =>
    cases hc
    rw [successor_of_jump (.inl hfamily)]
    simp only [obey, hform, jump_pc, Instruction.nnn, Memory.wrap]
    omega
  case call =>
    split at hc <;> cases hc
    rw [successor_of_jump (.inr hfamily)]
    simp only [enter, jump_pc, Instruction.nnn, Memory.wrap]
    omega
  case jpV0 =>
    have hv : m.v[(0 : Fin 16)] = m.v.get 0 := rfl
    cases hc
    rw [successor_of_indexed hfamily]
    simp only [obey, hform, jump_pc, Instruction.nnn, Memory.wrap, hv]
    omega
  all_goals simp at hf

/-- A key that is held is taken at once; otherwise the wait begins where the instruction is. -/
theorem pc_of_ldVxK (hw : Form.ofWord? ins.opcode = some .ldVxK) (hf : ins.form = .ldVxK)
    (hc : m.carryOut r ins = .ok (m', r')) : (m'.pc : Int) = m.successor ins.opcode := by
  simp only [carryOut, hf] at hc
  split at hc
  · rename_i key hkey
    have hheld : m.keypad.get key = true := (Keypad.first?_eq_some_iff.mp hkey).1
    have hpc : (m.receive ins.x key).pc = (m.pc + 2) % 0x1000 := advance_pc _
    cases hc
    rw [successor_of_onward hw (by simp) (fun _ => ⟨key, hheld⟩), skips_of_advances hw (.inr rfl), hpc]
    rfl
  · rename_i hkey
    cases hc
    rw [successor_of_wait hw (Keypad.first?_eq_none_iff.mp hkey)]

theorem return_of_carryOut (h : m.WellFormed) (hf : ins.form = .ret)
    (hc : m.carryOut r ins = .ok (m', r')) : 0 < m.sp ∧ (m'.pc : Int) = m.stack.get m.topSlot := by
  have hr := h.sp_range
  simp only [carryOut, hf] at hc
  split at hc
  · cases hc
  · cases hc
    exact ⟨by omega, pc_leave h⟩

/-- An instruction that completes goes on where its word says. -/
theorem pc_of_carryOut (h : m.WellFormed) (hw : Form.ofWord? ins.opcode = some ins.form)
    (hc : m.carryOut r ins = .ok (m', r')) : (m'.pc : Int) = m.successor ins.opcode := by
  cases hf : ins.form
  case ret =>
    have hword : ins.opcode = 0x00EE := Form.ofWord?_eq_ret_iff.mp (by rw [hw, hf])
    rw [hword, successor_of_return]
    exact (return_of_carryOut h hf hc).2
  case jp | call | jpV0 => exact pc_of_jump hw (by simp [hf]) hc
  case ldVxK => exact pc_of_ldVxK (by rw [hw, hf]) hf hc
  case seByte | sneByte | seReg | sneReg | skp | sknp =>
    have honward := successor_of_onward (m := m) hw (by simp [hf]) (by simp [hf])
    simp only [carryOut, hf] at hc
    cases hc
    rw [obey_skip hw (by simp [hf]), skipIf_pc, honward]
  all_goals
    have hforward : ins.form.advances = true := by rw [hf]; rfl
    have honward := successor_of_onward (m := m) hw (by simp [hf]) (by simp [hf])
    rw [pc_of_advances hc hforward, honward, skips_of_advances hw (.inl hforward)]
    rfl

end Machine

namespace Engine

variable {e e' : Engine} {a : Option Instruction}

structure Follows (e : Engine) (a : Option Instruction) (e' : Engine) (w : Nat) : Prop where
  word : ∀ p q : Fin 0x1000, p.val = e.machine.pc → q.val = (e.machine.pc + 1) % 0x1000 →
    w = 0x100 * (e.machine.memory.get p).toNat + (e.machine.memory.get q).toNat
  carried : ∃ ins notes, Instruction.ofWord? w = some ins ∧ perform ins (e.noted notes) = .ok () e' ∧
    a = if e'.machine.isAwaiting then none else some ins
  /-- A return that completes finds an address. -/
  sp : w = 0x00EE → 0 < e.machine.sp
  pc : (e'.machine.pc : Int) = e.machine.successor w

/-- **Control flow.** Within the bounds, and where no key is awaited, a cycle that completes carried out
the word at the program counter and goes on where it says. -/
theorem follows_word (h : e.machine.WellFormed) (ha : e.machine.awaiting = none)
    (hs : step e = .ok a e') : ∃ w, e.Follows a e' w := by
  obtain ⟨ins, hd, hc⟩ := Machine.carryOut_of_turns ha (turns_of_step h hs)
  have hform := Instruction.form_of_ofWord hd
  have hword := Instruction.opcode_of_ofWord hd
  obtain ⟨notes, hp, hanswer⟩ := perform_of_step ha hd hs
  refine ⟨e.machine.word, ?_⟩
  constructor
  case carried => exact ⟨ins, notes, hd, hp, hanswer⟩
  case word =>
    intro p q hpc hnext
    have hfirst : e.machine.memory.read e.machine.pc = e.machine.memory.get p := by
      simp only [Memory.read, ← hpc, Nat.mod_eq_of_lt p.isLt]
      rfl
    have hsecond : e.machine.memory.read (e.machine.pc + 1) = e.machine.memory.get q := by
      simp only [Memory.read, ← hnext]
      rfl
    rw [Machine.word, hfirst, hsecond]
    omega
  case sp =>
    intro hret
    rw [Form.ofWord?_eq_ret_iff.mpr hret, Option.some.injEq] at hform
    exact (Machine.return_of_carryOut h hform.symm hc).1
  case pc =>
    rw [← hword] at hform ⊢
    exact Machine.pc_of_carryOut h hform hc

/-- A skip in the last byte of memory and the first one, with its condition met. -/
def skipAroundEnd : Engine where
  machine := { Machine.fresh.setV 3 0xF0 with
    memory := Memory.fresh.write 0xFFF 0x33
    pc := 0xFFF }
  random := .ofBytes #[]
  trace := false
  notes := #[]

theorem skipAroundEnd_follows :
    skipAroundEnd.machine.WellFormed ∧ skipAroundEnd.machine.awaiting = none ∧
      ∃ a e', step skipAroundEnd = .ok a e' ∧ skipAroundEnd.Follows a e' 0x33F0 ∧ e'.machine.pc = 0x003 := by
  have h : skipAroundEnd.machine.WellFormed := { Machine.wellFormed_fresh with pc_lt := by decide }
  obtain ⟨a, hs⟩ := step_of_completes (e := skipAroundEnd) (by decide +kernel)
  obtain ⟨w, hfollows⟩ := follows_word h rfl hs
  have hw : w = 0x33F0 := (hfollows.word 0xFFF 0x000 rfl rfl).trans (by decide +kernel)
  have hsuccessor : skipAroundEnd.machine.successor 0x33F0 = 0x003 := by decide +kernel
  have hpc := hfollows.pc
  rw [hw, hsuccessor] at hpc
  rw [hw] at hfollows
  exact ⟨h, rfl, a, _, hs, hfollows, Int.ofNat_inj.mp hpc⟩

end Engine

end Chip8
