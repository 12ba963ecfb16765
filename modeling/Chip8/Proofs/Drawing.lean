import Chip8.Proofs.Footprint
import Chip8.Proofs.Operation
import Chip8.Proofs.Sprite

/-!
# Chip8.Proofs.Drawing

One cycle of Dxyn. Three things wrap around on their own: the addresses of the rows, the columns and the
rows of the screen; and VF, which takes the collision, may be one of the coordinates.

* `Machine.Toggles` : the pixels that the instruction turns over, by a formula and without drawing.
* `Machine.Draws`   : all that the instruction makes of a machine.

`draw_step`: within the bounds every Dxyn completes and draws so, unless a key wait is polled in its place.
-/

namespace Chip8

namespace Memory

theorem read_wrap_add (m : Memory) (i : Int) (k : Nat) :
    m.read (wrap i + k) = m.read ((i + k) % 0x1000).toNat := by
  have h : (wrap i + k) % 0x1000 = ((i + k) % 0x1000).toNat % 0x1000 := by
    simp only [wrap]
    omega
  simp only [read, h]

end Memory

namespace Machine

variable {m m' : Machine} {x y n : Fin 16}

def bytesAtI (m : Machine) (n : Nat) : List UInt8 :=
  (List.range n).map fun (r : Nat) => m.memory.read ((m.i + r) % 0x1000).toNat

/-- The row of a sprite, drawn at the row in `y`, that falls on row `py` of the screen. -/
def rowAt (m : Machine) (y : Fin 16) (py : Nat) : Nat :=
  ((py - (m.v.get y).toNat : Int) % 32).toNat

/-- The column of a sprite, drawn at the column in `x`, that falls on column `px` of the screen. -/
def columnAt (m : Machine) (x : Fin 16) (px : Nat) : Nat :=
  ((px - (m.v.get x).toNat : Int) % 64).toNat

/-- A pixel is turned over: `n` rows and eight columns reach it, and the bit there is set. -/
def Toggles (m : Machine) (x y : Fin 16) (n px py : Nat) : Prop :=
  m.rowAt y py < n ∧ m.columnAt x px < 8 ∧
    (m.memory.read ((m.i + m.rowAt y py) % 0x1000).toNat).toNat.testBit (7 - m.columnAt x px) = true

instance (m : Machine) (x y : Fin 16) (n px py : Nat) : Decidable (m.Toggles x y n px py) :=
  inferInstanceAs (Decidable (_ ∧ _ ∧ _))

/-- Some lit pixel of `m` is out in `m'`. -/
def PutsOut (m m' : Machine) : Prop :=
  ∃ (px : Fin 64) (py : Fin 32), m.screen.lit px py = true ∧ m'.screen.lit px py = false

structure Draws (m : Machine) (x y : Fin 16) (n : Nat) (m' : Machine) : Prop where
  /-- The position is taken from the registers as they were, VF among them. -/
  screen : m'.screen = (m.screen.draw ((m.v.get x).toNat % 64) ((m.v.get y).toNat % 32)
    ((m.bytesAtI n).map fun b => (b.toNat : Int))).1
  pixel : ∀ (px : Fin 64) (py : Fin 32),
    m'.screen.lit px py ≠ m.screen.lit px py ↔ m.Toggles x y n px py
  vf : ∀ k : Fin 16, k.val = 15 →
    m.PutsOut m' ∧ m'.v.get k = 1 ∨ ¬m.PutsOut m' ∧ m'.v.get k = 0
  v : ∀ k : Fin 16, k.val ≠ 15 → m'.v.get k = m.v.get k
  drawn : m'.drawn = (m.drawn || decide (0 < n))
  pc : m'.pc = (m.pc + 2) % 0x1000
  rest : m' = { m with screen := m'.screen, v := m'.v, drawn := m'.drawn, pc := m'.pc }

theorem spriteRows_eq (m : Machine) (n : Nat) :
    m.spriteRows n = (m.bytesAtI n).map fun b => (b.toNat : Int) := by
  simp only [spriteRows, peek, bytesAtI, Memory.load, Int.toNat_natCast, Memory.read_wrap_add]

theorem length_spriteRows (m : Machine) (n : Nat) : (m.spriteRows n).length = n := by
  simp only [spriteRows_eq, bytesAtI, List.length_map, List.length_range]

/-- What the instruction covers, solved for the row and the column of the sprite. -/
theorem coverage_pos_iff_toggles (m : Machine) (x y : Fin 16) {n : Nat} (hn : n ≤ 32) (px : Fin 64)
    (py : Fin 32) :
    0 < Screen.coverage (m.v.get x).toNat (m.v.get y).toNat (m.spriteRows n) px py ↔
      m.Toggles x y n px py := by
  have hrow {r : Nat} (hr : r < n) (j : Nat) : ((m.spriteRows n).getD r 0).testBit j =
      (m.memory.read ((m.i + r) % 0x1000).toNat).toNat.testBit j := by
    simp [spriteRows_eq, bytesAtI, hr]
    rfl
  rw [Screen.coverage_pos_iff, length_spriteRows, Toggles]
  constructor
  · rintro ⟨r, hr, j, hj, hbit, hx, hy⟩
    have hrow' : m.rowAt y py = r := by
      simp only [rowAt]
      omega
    have hcolumn : m.columnAt x px = j := by
      simp only [columnAt]
      omega
    rw [hrow hr] at hbit
    rw [hrow', hcolumn]
    exact ⟨hr, hj, hbit⟩
  · rintro ⟨hr, hj, hbit⟩
    refine ⟨_, hr, _, hj, ?_, ?_, ?_⟩
    · rw [hrow hr]
      exact hbit
    · simp only [columnAt]
      omega
    · simp only [rowAt]
      omega

/-- What the instruction does, for as many rows as fit on the screen. -/
theorem draws_drawSprite (m : Machine) (x y : Fin 16) {n : Nat} (hn : n ≤ 32) :
    m.Draws x y n (m.drawSprite x y n).advance := by
  have hlen : (m.spriteRows n).length ≤ 32 := by
    rw [length_spriteRows]
    exact hn
  have hhit := Screen.hit_draw_iff_putOut m.screen (m.v.get x).toNat (m.v.get y).toNat hlen
  have hpixel := Screen.lit_draw_ne_iff m.screen (m.v.get x).toNat (m.v.get y).toNat hlen
  have hscreen : m.screen.draw ((m.v.get x).toNat % 64) ((m.v.get y).toNat % 32)
      ((m.bytesAtI n).map fun b => (b.toNat : Int)) =
        m.screen.draw (m.v.get x).toNat (m.v.get y).toNat (m.spriteRows n) := by
    rw [Screen.draw_emod, spriteRows_eq]
  rw [drawSprite_eq]
  constructor
  case screen => exact (congrArg Prod.fst hscreen).symm
  case pixel => exact fun px py => (hpixel px py).trans (coverage_pos_iff_toggles m x y hn px py)
  case vf =>
    intro k hk
    obtain rfl : k = 15 := Fin.ext hk
    rw [advance_v, get_setV]
    cases hd : (m.screen.draw m.v[x].toNat m.v[y].toNat (m.spriteRows n)).2 with
    | true => exact .inl ⟨hhit.mp hd, rfl⟩
    | false => exact .inr ⟨fun hout => Bool.false_ne_true (hd.symm.trans (hhit.mpr hout)), rfl⟩
  case v =>
    intro k hk
    have hne : k ≠ 15 := fun he => hk (congrArg Fin.val he)
    exact v_setV _ hne
  case drawn =>
    show (m.drawn || n != 0) = (m.drawn || decide (0 < n))
    cases n with
    | zero => rfl
    | succ n => rfl
  case pc => exact advance_pc m
  case rest => rfl

end Machine

namespace Engine

/-- **A cycle of Dxyn.** Within the bounds, and where no key is awaited, it completes; it draws the bytes at
I at the place that the two registers name, and changes nothing else but VF, the frame flag and the
program counter. -/
theorem draw_step (e : Engine) (h : e.machine.WellFormed) (ha : e.machine.awaiting = none)
    (x y n : Fin 16) (hw : e.machine.word = 0xD000 + 0x100 * x + 0x10 * y + n) :
    ∃ e', step e = .ok (some ⟨.drw, e.machine.word⟩) e' ∧
      e.machine.Draws x y n e'.machine ∧ e'.random = e.random := by
  have hform : Form.ofWord? e.machine.word = some .drw := Form.ofWord?_eq_drw (by omega)
  have hd := Instruction.ofWord_of_form hform
  have hx : (⟨.drw, e.machine.word⟩ : Instruction).x = x := by
    simp only [Instruction.x, Fin.ext_iff]
    omega
  have hy : (⟨.drw, e.machine.word⟩ : Instruction).y = y := by
    simp only [Instruction.y, Fin.ext_iff]
    omega
  have hn : (⟨.drw, e.machine.word⟩ : Instruction).n = n := by
    simp only [Instruction.n]
    omega
  have hc : e.machine.carryOut e.random ⟨.drw, e.machine.word⟩ =
      .ok ((e.machine.drawSprite x y n).advance, e.random) := by
    simp only [Machine.carryOut, Machine.obey, hx, hy, hn]
  have hs := step_of_carryOut h ha hd hc
  have hidle : (e.machine.drawSprite x y n).advance.isAwaiting = false := by
    simp only [Machine.isAwaiting, Machine.advance_awaiting, Machine.drawSprite_awaiting, ha,
      Option.isSome_none]
  rw [hidle] at hs
  exact ⟨_, hs, Machine.draws_drawSprite _ x y (by omega), rfl⟩

/-- Two rows at the column and the row in VF, which lie off the screen, from the last byte of memory on;
one of their pixels is lit already. -/
def acrossCorners : Engine where
  machine := { Machine.fresh with
    memory := (Memory.fresh.store Memory.programStart [0xDF, 0xF2]).store 0xFFF [0x81]
    v := Machine.fresh.v.set 15 0x7E
    i := 0xFFFF
    screen := (Screen.dark.draw 1 31 [0x80]).1 }
  random := .ofBytes #[]
  trace := false
  notes := #[]

/-- The second row is the first byte of the glyphs, and ends in the lower left corner. -/
theorem acrossCorners_draws :
    acrossCorners.machine.WellFormed ∧ acrossCorners.machine.awaiting = none ∧
      acrossCorners.machine.word = 0xDFF2 ∧
      ∃ e', step acrossCorners = .ok (some ⟨.drw, 0xDFF2⟩) e' ∧
        e'.machine.screen.lit 0 31 = true ∧ e'.machine.screen.lit 1 31 = false ∧
        e'.machine.v.get (Fin.last 15) = 1 ∧ e'.machine.pc = 0x202 ∧ e'.machine.drawn = true := by
  have h : acrossCorners.machine.WellFormed :=
    (((Machine.wellFormed_fresh.setScreen _ false).setI (by decide)).setRegisters _).setMemory _
  have hword : acrossCorners.machine.word = 0xDFF2 := by decide +kernel
  obtain ⟨e', hs, hdraws, -⟩ := draw_step acrossCorners h rfl 15 15 2 hword
  have hlit (px : Fin 64) (htoggles : acrossCorners.machine.Toggles 15 15 2 px 31) :
      e'.machine.screen.lit px 31 = !acrossCorners.machine.screen.lit px 31 :=
    Bool.eq_not.mpr ((hdraws.pixel px 31).mpr htoggles)
  have hon := (hlit 0 (by decide +kernel)).trans (by decide +kernel : _ = true)
  have hout := (hlit 1 (by decide +kernel)).trans (by decide +kernel : _ = false)
  have hvf : e'.machine.v.get (Fin.last 15) = 1 := by
    obtain ⟨-, hv⟩ | ⟨hnone, -⟩ := hdraws.vf (Fin.last 15) rfl
    · exact hv
    · exact absurd ⟨1, 31, by decide +kernel, hout⟩ hnone
  refine ⟨h, rfl, hword, e', ?_, hon, hout, hvf, hdraws.pc, ?_⟩
  · rw [hword] at hs
    exact hs
  · rw [hdraws.drawn]
    rfl

/-- A key wait whose instruction was replaced by one that draws. -/
def waitingAtDraw : Engine :=
  ((Session.start (.ofBytes #[]) false).play
    [.load [0xF0, 0x0A], .step, .poke 0x200 [0xD0, 0x01]]).engine

/-- The cycle polls the keys, and the program counter stays where it is. -/
theorem waitingAtDraw_polls :
    waitingAtDraw.machine.WellFormed ∧
      ∃ x y n : Fin 16, waitingAtDraw.machine.word = 0xD000 + 0x100 * x + 0x10 * y + n ∧
        ¬∃ a e', step waitingAtDraw = .ok a e' ∧ waitingAtDraw.machine.Draws x y n e'.machine := by
  have h : waitingAtDraw.machine.WellFormed :=
    Session.wellFormed_play (Session.wellFormed_start _ _) _
  refine ⟨h, 0, 0, 1, by decide +kernel, ?_⟩
  rintro ⟨a, e', hs, hdraws⟩
  have hpc : waitingAtDraw.machine.pc = 0x200 := by decide +kernel
  have hnext : waitingAtDraw.next.machine.pc = 0x200 := by decide +kernel
  have hmoved := hdraws.pc
  rw [← next_of_ok hs, hnext, hpc] at hmoved
  omega

end Engine
end Chip8
