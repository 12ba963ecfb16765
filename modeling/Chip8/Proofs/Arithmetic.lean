import Chip8.Proofs.Footprint
import Chip8.Proofs.Operation

/-!
# Chip8.Proofs.Arithmetic

The five instructions of family 8 that set a flag. Each has one equation over the integers between its
operands, its result and its flag (`FlagOp.Relates`); with a byte for the result and a bit for the flag the
equation has one solution (`FlagOp.relates_unique`), so it settles both.

The result goes to its register before the flag goes to VF, and both operands are read before that. So
the equation speaks of the registers as they were, whichever of the operands, the result and the flag
share one; only a result in VF is lost to the flag.

`flagged_step`: every such instruction completes and computes so, unless a key wait is polled in its place;
and a shift comes out alike whatever its second register holds.
-/

namespace Chip8

inductive FlagOp where
  | add
  | sub
  | shr
  | subn
  | shl
  deriving DecidableEq

namespace FlagOp

variable {op : FlagOp} {a b r f : Int}

def nibble : FlagOp → Nat
  | add => 0x4
  | sub => 0x5
  | shr => 0x6
  | subn => 0x7
  | shl => 0xE

def form : FlagOp → Form
  | add => .addReg
  | sub => .sub
  | shr => .shr
  | subn => .subn
  | shl => .shl

/-- The shifts take no second operand. -/
def shifts : FlagOp → Bool
  | shr | shl => true
  | _ => false

/-- The equation between the operands `a` and `b`, the result `r` and the flag `f`. The flag of a
difference is set if nothing was borrowed. -/
def Relates (op : FlagOp) (a b r f : Int) : Prop :=
  match op with
  | add => r + 0x100 * f = a + b
  | sub => r = a - b + 0x100 * (1 - f)
  | shr => a = 2 * r + f
  | subn => r = b - a + 0x100 * (1 - f)
  | shl => r + 0x100 * f = 2 * a

instance decidableRelates (a b r f : Int) : (op : FlagOp) → Decidable (op.Relates a b r f)
  | add | sub | shr | subn | shl => inferInstanceAs (Decidable (_ = _))

def result : FlagOp → UInt8 → UInt8 → UInt8
  | add, a, b => a + b
  | sub, a, b => a - b
  | shr, a, _ => a >>> 1
  | subn, a, b => b - a
  | shl, a, _ => a <<< 1

def flag : FlagOp → UInt8 → UInt8 → Bool
  | add, a, b => 255 < a.toNat + b.toNat
  | sub, a, b => b ≤ a
  | shr, a, _ => a &&& 1 == 1
  | subn, a, b => a ≤ b
  | shl, a, _ => a >>> 7 == 1

/-- `f` is the one flag with which the equation has a solution. -/
def Determines (op : FlagOp) (a b f : UInt8) : Prop :=
  (f = 0 ∨ f = 1) ∧ (∃ r : UInt8, op.Relates a.toNat b.toNat r.toNat f.toNat) ∧
    ∀ r' f' : UInt8, (f' = 0 ∨ f' = 1) → op.Relates a.toNat b.toNat r'.toNat f'.toNat → f' = f

theorem nibble_lt (op : FlagOp) : op.nibble < 0x10 := by
  cases op <;> decide

theorem form_of_nibble (op : FlagOp) : Form.ofArithmetic op.nibble = some op.form := by
  cases op <;> rfl

/-- A byte and a bit are all that the equation leaves free, and it leaves one of each. -/
theorem relates_unique {r' f' : Int} (h : op.Relates a b r f) (h' : op.Relates a b r' f')
    (hr : 0 ≤ r ∧ r < 0x100) (hr' : 0 ≤ r' ∧ r' < 0x100) (hf : f = 0 ∨ f = 1)
    (hf' : f' = 0 ∨ f' = 1) : r = r' ∧ f = f' := by
  cases op <;> simp only [Relates] at h h' <;> omega

theorem relates_of_shifts (hop : op.shifts = true) (c : Int) :
    op.Relates a b r f ↔ op.Relates a c r f := by
  cases op
  case shr | shl => rfl
  all_goals cases hop

/-! ## Bytes -/

theorem toNat_shiftRight_one (a : UInt8) : (a >>> 1).toNat = a.toNat / 2 := by
  simp [UInt8.toNat_shiftRight, Nat.shiftRight_eq_div_pow]

theorem toNat_shiftLeft_one (a : UInt8) : (a <<< 1).toNat = 2 * a.toNat % 0x100 := by
  simp [UInt8.toNat_shiftLeft, Nat.shiftLeft_eq, Nat.mul_comm]

theorem lowBit_iff (a : UInt8) : a &&& 1 = 1 ↔ a.toNat % 2 = 1 := by
  simp [← UInt8.toNat_inj, UInt8.toNat_and, Nat.and_one_is_mod]

theorem highBit_iff (a : UInt8) : a >>> 7 = 1 ↔ 0x80 ≤ a.toNat := by
  have ha := a.toNat_lt
  simp only [← UInt8.toNat_inj, UInt8.toNat_shiftRight, Nat.shiftRight_eq_div_pow]
  show a.toNat / 0x80 = 1 ↔ 0x80 ≤ a.toNat
  omega

theorem toNat_bit (c : Bool) : (c.toNat : Int) = if c = true then 1 else 0 := by
  cases c <;> rfl

/-- What is put into the registers solves the equation. -/
theorem relates_result (op : FlagOp) (a b : UInt8) :
    op.Relates a.toNat b.toNat (op.result a b).toNat (op.flag a b).toNat := by
  have ha := a.toNat_lt
  have hb := b.toNat_lt
  cases op with
  | add =>
    have hr : (a + b).toNat = (a.toNat + b.toNat) % 0x100 := UInt8.toNat_add a b
    simp only [Relates, result, flag, toNat_bit, decide_eq_true_eq]
    omega
  | sub =>
    have hr : (a - b).toNat = (0x100 - b.toNat + a.toNat) % 0x100 := UInt8.toNat_sub a b
    simp only [Relates, result, flag, toNat_bit, decide_eq_true_eq, UInt8.le_iff_toNat_le]
    omega
  | subn =>
    have hr : (b - a).toNat = (0x100 - a.toNat + b.toNat) % 0x100 := UInt8.toNat_sub b a
    simp only [Relates, result, flag, toNat_bit, decide_eq_true_eq, UInt8.le_iff_toNat_le]
    omega
  | shr =>
    simp only [Relates, result, flag, toNat_bit, beq_iff_eq, lowBit_iff, toNat_shiftRight_one]
    omega
  | shl =>
    simp only [Relates, result, flag, toNat_bit, beq_iff_eq, highBit_iff, toNat_shiftLeft_one]
    omega

theorem toNat_flag (c : Bool) : (if c then 1 else 0 : UInt8).toNat = c.toNat := by
  cases c <;> rfl

theorem bit_toNat {g : UInt8} (h : g = 0 ∨ g = 1) : (g.toNat : Int) = 0 ∨ (g.toNat : Int) = 1 := by
  rcases h with rfl | rfl <;> simp

theorem determines_flag (op : FlagOp) (a b : UInt8) :
    op.Determines a b (if op.flag a b then 1 else 0) := by
  have hrelates := op.relates_result a b
  rw [← toNat_flag] at hrelates
  have hbit : (if op.flag a b then 1 else 0 : UInt8) = 0 ∨
      (if op.flag a b then 1 else 0 : UInt8) = 1 := by
    cases op.flag a b <;> simp
  refine ⟨hbit, ⟨_, hrelates⟩, ?_⟩
  intro r f hf h
  have hr := r.toNat_lt
  have hr' := (op.result a b).toNat_lt
  obtain ⟨-, hflag⟩ :=
    relates_unique h hrelates (by omega) (by omega) (bit_toNat hf) (bit_toNat hbit)
  exact UInt8.toNat_inj.mp (Int.ofNat_inj.mp hflag)

/-- The flag of a shift comes from its first operand alone. -/
theorem Determines.of_shifts (hop : op.shifts = true) {a b c f : UInt8} (h : op.Determines a b f) :
    op.Determines a c f := by
  obtain ⟨hf, ⟨r, hr⟩, hunique⟩ := h
  refine ⟨hf, ⟨r, (relates_of_shifts hop _).mp hr⟩, ?_⟩
  intro r' f' hf' h'
  exact hunique r' f' hf' ((relates_of_shifts hop _).mp h')

end FlagOp

namespace Machine

variable {m m' : Machine} {op : FlagOp} {x y : Fin 16} {ins : Instruction}

/-- What an instruction makes of a machine that works on the registers `x` and `y`. -/
structure Computes (m : Machine) (op : FlagOp) (x y : Fin 16) (m' : Machine) : Prop where
  /-- Result and flag, where the result has a register of its own. -/
  result : x.val ≠ 15 → ∀ k : Fin 16, k.val = 15 →
    op.Relates (m.v.get x).toNat (m.v.get y).toNat (m'.v.get x).toNat (m'.v.get k).toNat
  /-- The flag, whether it has one or not. -/
  flag : ∀ k : Fin 16, k.val = 15 → op.Determines (m.v.get x) (m.v.get y) (m'.v.get k)
  v : ∀ k : Fin 16, k ≠ x → k.val ≠ 15 → m'.v.get k = m.v.get k
  pc : m'.pc = (m.pc + 2) % 0x1000
  rest : m' = { m with v := m'.v, pc := m'.pc }

/-- Shifts of the same byte leave the same result and the same flag. -/
theorem shifted_eq {n n' : Machine} {k : Fin 16} (hop : op.shifts = true) (hx : n.v.get x = m.v.get x)
    (h' : n.Computes op x y n') (h : m.Computes op x y m') (hk : k = x ∨ k.val = 15) :
    n'.v.get k = m'.v.get k := by
  have hflag {j : Fin 16} (hj : j.val = 15) : n'.v.get j = m'.v.get j := by
    have hd := (h.flag j hj).of_shifts hop (c := n.v.get y)
    obtain ⟨hbit, ⟨r, hr⟩, -⟩ := h'.flag j hj
    rw [hx] at hr
    exact hd.2.2 r _ hbit hr
  by_cases hlast : k.val = 15
  · exact hflag hlast
  · obtain rfl := hk.resolve_right hlast
    have hr := h.result hlast (Fin.last 15) rfl
    have hr' := h'.result hlast (Fin.last 15) rfl
    rw [hflag (j := Fin.last 15) rfl, hx, FlagOp.relates_of_shifts hop (m.v.get y).toNat] at hr'
    have hlt := (m'.v.get k).toNat_lt
    have hlt' := (n'.v.get k).toNat_lt
    have hbit := FlagOp.bit_toNat (h.flag (Fin.last 15) rfl).1
    obtain ⟨heq, -⟩ := FlagOp.relates_unique hr' hr (by omega) (by omega) hbit hbit
    exact UInt8.toNat_inj.mp (Int.ofNat_inj.mp heq)

theorem obey_flagOp (m : Machine) (hf : ins.form = op.form) :
    m.obey ins = (m.setFlagged ins.x (op.result m.v[ins.x] m.v[ins.y])
      (op.flag m.v[ins.x] m.v[ins.y])).advance := by
  cases op <;> simp only [obey, hf, FlagOp.form, FlagOp.result, FlagOp.flag]

theorem computes_setFlagged (m : Machine) (op : FlagOp) (x y : Fin 16) :
    m.Computes op x y (m.setFlagged x (op.result m.v[x] m.v[y]) (op.flag m.v[x] m.v[y])).advance := by
  constructor
  case result =>
    intro hx k hk
    obtain rfl : k = 15 := Fin.ext hk
    have hresult : (m.setFlagged x (op.result m.v[x] m.v[y]) (op.flag m.v[x] m.v[y])).v.get x =
        op.result m.v[x] m.v[y] := by
      have hne : x ≠ 15 := fun he => hx (congrArg Fin.val he)
      exact (v_setV _ hne).trans (get_setV m x _)
    rw [advance_v, hresult, setFlagged, get_setV, FlagOp.toNat_flag]
    exact op.relates_result _ _
  case flag =>
    intro k hk
    obtain rfl : k = 15 := Fin.ext hk
    rw [advance_v, setFlagged, get_setV]
    exact op.determines_flag _ _
  case v =>
    intro k hx hk
    have hne : k ≠ 15 := fun he => hk (congrArg Fin.val he)
    exact v_setFlagged _ _ hx hne
  case pc => exact advance_pc m
  case rest => rfl

end Machine

namespace Engine

variable {e : Engine} {op : FlagOp} {x y : Fin 16}

theorem computes_of_step (ha : e.machine.awaiting = none)
    (hw : e.machine.word = 0x8000 + 0x100 * x + 0x10 * y + op.nibble) :
    step e = .ok (some ⟨op.form, e.machine.word⟩) e.next ∧
      e.machine.Computes op x y e.next.machine ∧ e.next.random = e.random := by
  have hnibble := op.nibble_lt
  have hfamily : e.machine.word / 0x1000 = 0x8 := by omega
  have hlow : e.machine.word % 0x10 = op.nibble := by omega
  have hform : Form.ofWord? e.machine.word = some op.form := by
    simp only [Form.ofWord?, hfamily, hlow, op.form_of_nibble]
  have hx : (⟨op.form, e.machine.word⟩ : Instruction).x = x := Instruction.x_of_word (by omega)
  have hy : (⟨op.form, e.machine.word⟩ : Instruction).y = y := Instruction.y_of_word (by omega)
  have hp : perform ⟨op.form, e.machine.word⟩ = change fun m => m.obey ⟨op.form, e.machine.word⟩ := by
    cases op <;> rfl
  obtain ⟨hs, hm, hr⟩ := step_of_obeyed ha (Instruction.ofWord_of_form hform) hp
  have hcomputes := e.machine.computes_setFlagged op x y
  rw [Machine.obey_flagOp _ rfl, hx, hy] at hm
  rw [← hm] at hcomputes
  exact ⟨hs, hcomputes, hr⟩

def withRegister (e : Engine) (k : Fin 16) (b : UInt8) : Engine :=
  { e with machine := e.machine.setV k b }

/-- **Arithmetic with a flag.** Where no key is awaited each of the five instructions completes and computes
by its equation, whatever registers it names. A shift leaves the same in both of its registers whatever
its second operand is, unless that is the first. -/
theorem flagged_step (e : Engine) (op : FlagOp) (x y : Fin 16) (ha : e.machine.awaiting = none)
    (hw : e.machine.word = 0x8000 + 0x100 * x + 0x10 * y + op.nibble) :
    ∃ e', step e = .ok (some ⟨op.form, e.machine.word⟩) e' ∧
      e.machine.Computes op x y e'.machine ∧ e'.random = e.random ∧
      (op.shifts = true → x ≠ y → ∀ b : UInt8, ∃ a e'', step (e.withRegister y b) = .ok a e'' ∧
        ∀ k : Fin 16, k = x ∨ k.val = 15 → e''.machine.v.get k = e'.machine.v.get k) := by
  obtain ⟨hs, hcomputes, hr⟩ := computes_of_step ha hw
  refine ⟨e.next, hs, hcomputes, hr, ?_⟩
  intro hop hxy b
  obtain ⟨hs', hcomputes', -⟩ := computes_of_step (e := e.withRegister y b) ha hw
  refine ⟨_, _, hs', fun k hk => ?_⟩
  exact Machine.shifted_eq hop (Machine.v_setV b hxy) hcomputes' hcomputes hk

/-- The last instruction of memory adds VF to itself. -/
def doublesFlag : Engine where
  machine := { Machine.fresh.setV 15 0x80 with
    memory := Memory.fresh.store 0xFFE [0x8F, 0xF4]
    pc := 0xFFE }
  random := .ofBytes #[]
  trace := false
  notes := #[]

/-- The sum is zero with a carry, and the carry is what is left in VF. -/
theorem doublesFlag_carries :
    doublesFlag.machine.awaiting = none ∧ doublesFlag.machine.word = 0x8FF4 ∧
      ∃ e', step doublesFlag = .ok (some ⟨.addReg, 0x8FF4⟩) e' ∧
        doublesFlag.machine.Computes .add 15 15 e'.machine ∧
        e'.machine.v.get (Fin.last 15) = 1 ∧ e'.machine.pc = 0x000 := by
  have hword : doublesFlag.machine.word = 0x8FF4 := by decide +kernel
  obtain ⟨e', hs, hcomputes, -, -⟩ := flagged_step doublesFlag .add 15 15 rfl hword
  rw [hword] at hs
  -- the carry and a sum of zero are a solution, so the flag is that carry
  have hflag := (hcomputes.flag (Fin.last 15) rfl).2.2 0 1 (.inr rfl) (by decide +kernel)
  exact ⟨rfl, hword, e', hs, hcomputes, hflag.symm, hcomputes.pc⟩

/-- A key wait whose instruction was replaced by an addition. -/
def waitingAtSum : Engine :=
  ((Session.start (.ofBytes #[]) false).play
    [.load [0xF0, 0x0A], .step, .poke 0x200 [0x80, 0x14]]).engine

/-- The cycle polls the keys, and the program counter stays where it is. -/
theorem waitingAtSum_polls :
    waitingAtSum.machine.WellFormed ∧
      ∃ (op : FlagOp) (x y : Fin 16),
        waitingAtSum.machine.word = 0x8000 + 0x100 * x + 0x10 * y + op.nibble ∧
        ¬∃ a e', step waitingAtSum = .ok a e' ∧ waitingAtSum.machine.Computes op x y e'.machine := by
  have h : waitingAtSum.machine.WellFormed :=
    Session.wellFormed_play (Session.wellFormed_start _ _) _
  refine ⟨h, .add, 0, 1, by decide +kernel, ?_⟩
  rintro ⟨a, e', hs, hcomputes⟩
  have hpc : waitingAtSum.machine.pc = 0x200 := by decide +kernel
  have hnext : waitingAtSum.next.machine.pc = 0x200 := by decide +kernel
  have hmoved := hcomputes.pc
  rw [← next_of_ok hs, hnext, hpc] at hmoved
  omega

end Engine

end Chip8
