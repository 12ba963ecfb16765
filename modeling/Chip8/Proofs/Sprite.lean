import Chip8.Screen
import Mathlib.Data.Finset.Prod
import Mathlib.Data.Int.Bitwise

/-!
# Chip8.Proofs.Sprite

Sprites on the screen in closed form. Columns and rows wrap around, so a sprite of more than 32 rows
covers places more than once. `Screen.coverage` counts how often, over the pixels of the sprite and
without drawing it.

* `draw_closedForm` : drawing turns each place over as often as the sprite covers it, touches no
  other place, and tells of a collision exactly if some place is lit at one of its turns.
* `drawing_algebra` : the order of sprites does not matter for the pixels, a sprite that is drawn twice
  leaves none, and the two collisions of a sprite that is drawn twice in a row.
-/

namespace Chip8
namespace Screen

variable {x y : Int} {rows : List Int}

/-- Pixel `j` of sprite row `r` is set and falls on column `px` of row `py`. The bits of a row are those
of its two's complement. -/
def Falls (x y : Int) (rows : List Int) (px py r j : Nat) : Prop :=
  (rows.getD r 0).testBit (7 - j) = true ∧ (x + j) % 64 = px ∧ (y + r) % 32 = py

instance (x y : Int) (rows : List Int) (px py r j : Nat) : Decidable (Falls x y rows px py r j) :=
  inferInstanceAs (Decidable (_ ∧ _ ∧ _))

/-- How many pixels of a sprite at `(x, y)` fall on column `px` of row `py`. -/
def coverage (x y : Int) (rows : List Int) (px py : Nat) : Nat :=
  ((Finset.range rows.length ×ˢ Finset.range 8).filter fun p => Falls x y rows px py p.1 p.2).card

/-! ## Places -/

theorem ext_get {s t : Screen} (h : ∀ c, s.pixels.get c = t.pixels.get c) : s = t := by
  obtain ⟨p⟩ := s
  obtain ⟨q⟩ := t
  congr 1
  exact Vector.ext fun i hi => h ⟨i, hi⟩

theorem val_cell (px : Fin 64) (py : Fin 32) : (cell px py).val = py * 64 + px := by
  simp only [cell]
  omega

theorem exists_cell (c : Fin 2048) : ∃ (px : Fin 64) (py : Fin 32), c = cell px py := by
  refine ⟨⟨c % 64, by omega⟩, ⟨c / 64, by omega⟩, Fin.ext ?_⟩
  rw [val_cell]
  dsimp only
  omega

theorem spriteCell_eq_iff (r j : Nat) (px : Fin 64) (py : Fin 32) :
    spriteCell x y r j = cell px py ↔ (x + j) % 64 = (px : Nat) ∧ (y + r) % 32 = (py : Nat) := by
  rw [Fin.ext_iff, val_cell]
  simp only [spriteCell, cell]
  omega

theorem spriteBit_eq_testBit (bits : Int) {j : Nat} (h : j < 8) :
    spriteBit bits j = bits.testBit (7 - j) := by
  have hlt : 7 - j < 8 := by omega
  cases bits with
  | ofNat b =>
    have hmod : (Int.ofNat b % 256).toNat = b % 2 ^ 8 := by
      rw [Int.ofNat_eq_natCast]
      omega
    simp only [spriteBit, hmod, Nat.testBit_mod_two_pow, hlt, decide_true, Bool.true_and]
    rfl
  | negSucc b =>
    have hmod : (Int.negSucc b % 256).toNat = 2 ^ 8 - (b % 2 ^ 8 + 1) := by
      rw [Int.negSucc_eq]
      omega
    have hb : b % 2 ^ 8 < 2 ^ 8 := Nat.mod_lt _ (by decide)
    simp only [spriteBit, hmod, Nat.testBit_two_pow_sub_succ hb, Nat.testBit_mod_two_pow, hlt,
      decide_true, Bool.true_and]
    rfl

/-! ## How often a place is covered -/

/-- The rows of a sprite by their numbers. -/
theorem spriteCells_eq (x y : Int) (rows : List Int) :
    spriteCells x y rows =
      (List.range rows.length).flatMap fun r => rowCells x y (rows.getD r 0) r := by
  have hrows : rows.zipIdx = (List.range rows.length).map fun r => (rows.getD r 0, r) := by
    refine List.ext_getElem (by simp) fun r h₁ h₂ => ?_
    have hr : r < rows.length := by simpa using h₁
    simp [List.getElem?_eq_getElem hr]
  rw [spriteCells, hrows, List.flatMap_map]

theorem mem_spriteCells {c : Fin 2048} : c ∈ spriteCells x y rows ↔
    ∃ r < rows.length, ∃ j < 8, (rows.getD r 0).testBit (7 - j) = true ∧ spriteCell x y r j = c := by
  simp only [spriteCells_eq, rowCells, List.mem_flatMap, List.mem_map, List.mem_filter,
    List.mem_range]
  constructor
  · rintro ⟨r, hr, j, ⟨hj, hbit⟩, rfl⟩
    exact ⟨r, hr, j, hj, spriteBit_eq_testBit _ hj ▸ hbit, rfl⟩
  · rintro ⟨r, hr, j, hj, hbit, rfl⟩
    exact ⟨r, hr, j, ⟨hj, (spriteBit_eq_testBit _ hj).trans hbit⟩, rfl⟩

theorem count_rowCells (x y : Int) (rows : List Int) (r : Nat) (px : Fin 64) (py : Fin 32) :
    (rowCells x y (rows.getD r 0) r).count (cell px py) =
      (List.range 8).countP fun j => decide (Falls x y rows px py r j) := by
  rw [rowCells, List.count, List.countP_map, List.countP_filter]
  refine List.countP_congr fun j hj => ?_
  have hj : j < 8 := List.mem_range.mp hj
  rw [decide_eq_true_iff, Falls, Function.comp_apply, Bool.and_eq_true, beq_iff_eq,
    spriteCell_eq_iff, spriteBit_eq_testBit _ hj]
  exact and_comm

theorem coverage_eq_countP (x y : Int) (rows : List Int) (px py : Nat) :
    coverage x y rows px py = (List.range rows.length ×ˢ List.range 8).countP fun p =>
      decide (Falls x y rows px py p.1 p.2) := by
  have hpairs : (Finset.range rows.length ×ˢ Finset.range 8).val =
      ↑(List.range rows.length ×ˢ List.range 8) := by
    rw [Finset.product_val]
    exact Multiset.coe_product _ _
  rw [coverage, Finset.card_def, Finset.filter_val, hpairs, Multiset.filter_coe, Multiset.coe_card,
    List.countP_eq_length_filter]

/-- A place is switched as often as the sprite covers it. -/
theorem count_spriteCells (x y : Int) (rows : List Int) (px : Fin 64) (py : Fin 32) :
    (spriteCells x y rows).count (cell px py) = coverage x y rows px py := by
  have hpairs : (List.range rows.length ×ˢ List.range 8 : List (Nat × Nat)) =
      (List.range rows.length).flatMap fun r => (List.range 8).map (Prod.mk r) := rfl
  rw [spriteCells_eq, List.count_flatMap, coverage_eq_countP, hpairs, List.countP_flatMap]
  refine congrArg List.sum (List.map_congr_left fun r _ => ?_)
  rw [Function.comp_apply, Function.comp_apply, List.countP_map, count_rowCells]
  rfl

/-! ## Switching places one after another -/

theorem get_switch (p : Screen × Bool) (c d : Fin 2048) :
    (switch p c).1.pixels.get d = (p.1.pixels.get d ^^ decide (c = d)) := by
  obtain ⟨s, hit⟩ := p
  show (s.pixels.set c _ c.isLt)[d] = (s.pixels[d] ^^ decide (c = d))
  by_cases h : c = d
  · subst h
    simp
  · have hne : c.val ≠ d.val := fun he => h (Fin.ext he)
    simp [h, Vector.getElem_set_ne _ _ hne]

theorem hit_switch (p : Screen × Bool) (c : Fin 2048) :
    (switch p c).2 = (p.2 || p.1.pixels.get c) := rfl

/-- Two rows of turns come to one, by their parities. -/
theorem decide_odd_add (a b : Nat) :
    decide ((a + b) % 2 = 1) = (decide (a % 2 = 1) ^^ decide (b % 2 = 1)) := by
  obtain ha | ha := Nat.mod_two_eq_zero_or_one a <;>
    obtain hb | hb := Nat.mod_two_eq_zero_or_one b <;> simp [Nat.add_mod, ha, hb]

theorem toNat_turned (b : Bool) : (b ^^ true).toNat = 1 - b.toNat := by
  cases b <;> rfl

/-- A place that is switched again and again goes by the parity. -/
theorem get_switchAll (cells : List (Fin 2048)) (p : Screen × Bool) (d : Fin 2048) :
    (cells.foldl switch p).1.pixels.get d =
      (p.1.pixels.get d ^^ decide (cells.count d % 2 = 1)) := by
  induction cells generalizing p with
  | nil => simp
  | cons c cells ih =>
    rw [List.foldl_cons, ih, get_switch, Bool.xor_assoc, List.count_cons, decide_odd_add,
      Bool.xor_comm (decide (c = d))]
    by_cases h : c = d <;> simp [h]

/-- Some switch puts a lit place out exactly if a lit place is switched at all, or a place twice. -/
theorem hit_switchAll (cells : List (Fin 2048)) (p : Screen × Bool) :
    (cells.foldl switch p).2 = true ↔
      p.2 = true ∨ ∃ d, 2 ≤ (p.1.pixels.get d).toNat + cells.count d := by
  induction cells generalizing p with
  | nil =>
    have hle (d : Fin 2048) : ¬2 ≤ (p.1.pixels.get d).toNat + 0 := by
      have := (p.1.pixels.get d).toNat_le
      omega
    simp only [List.foldl_nil, List.count_nil, hle, exists_false, or_false]
  | cons c cells ih =>
    rw [List.foldl_cons, ih, hit_switch, Bool.or_eq_true]
    constructor
    · rintro ((h | h) | ⟨d, hd⟩)
      · exact .inl h
      · refine .inr ⟨c, ?_⟩
        rw [h, Bool.toNat_true, List.count_cons_self]
        omega
      · refine .inr ⟨d, ?_⟩
        rw [get_switch] at hd
        by_cases hc : c = d
        · subst hc
          have hle := (p.1.pixels.get c).toNat_le
          rw [decide_eq_true rfl, toNat_turned] at hd
          rw [List.count_cons_self]
          omega
        · rw [List.count_cons_of_ne hc]
          simpa [hc] using hd
    · rintro (h | ⟨d, hd⟩)
      · exact .inl (.inl h)
      · by_cases hc : c = d
        · subst hc
          rw [List.count_cons_self] at hd
          -- unlit places come back lit, with one turn less to go
          cases hl : p.1.pixels.get c with
          | true => exact .inl (.inr rfl)
          | false =>
            refine .inr ⟨c, ?_⟩
            rw [get_switch, decide_eq_true rfl, toNat_turned]
            rw [hl, Bool.toNat_false] at hd ⊢
            omega
        · refine .inr ⟨d, ?_⟩
          rw [List.count_cons_of_ne hc] at hd
          rw [get_switch]
          simpa [hc] using hd

/-! ## One sprite -/

theorem lit_draw (s : Screen) (x y : Int) (rows : List Int) (px : Fin 64) (py : Fin 32) :
    (s.draw x y rows).1.lit px py =
      (s.lit px py ^^ decide (coverage x y rows px py % 2 = 1)) := by
  have hget := get_switchAll (spriteCells x y rows) (s, false) (cell px py)
  rw [count_spriteCells] at hget
  exact hget

theorem hit_draw_iff (s : Screen) (x y : Int) (rows : List Int) :
    (s.draw x y rows).2 = true ↔
      ∃ (px : Fin 64) (py : Fin 32), 2 ≤ (s.lit px py).toNat + coverage x y rows px py := by
  have hhit := hit_switchAll (spriteCells x y rows) (s, false)
  simp only [Bool.false_eq_true, false_or] at hhit
  rw [draw, hhit]
  constructor
  · rintro ⟨d, hd⟩
    obtain ⟨px, py, rfl⟩ := exists_cell d
    rw [count_spriteCells] at hd
    exact ⟨px, py, hd⟩
  · rintro ⟨px, py, hd⟩
    refine ⟨cell px py, ?_⟩
    rw [count_spriteCells]
    exact hd

theorem coverage_pos_iff {px py : Nat} : 0 < coverage x y rows px py ↔
    ∃ r < rows.length, ∃ j < 8, Falls x y rows px py r j := by
  rw [coverage, Finset.card_pos]
  constructor
  · rintro ⟨⟨r, j⟩, hp⟩
    rw [Finset.mem_filter, Finset.mem_product, Finset.mem_range, Finset.mem_range] at hp
    exact ⟨r, hp.1.1, j, hp.1.2, hp.2⟩
  · rintro ⟨r, hr, j, hj, hf⟩
    refine ⟨(r, j), ?_⟩
    rw [Finset.mem_filter, Finset.mem_product, Finset.mem_range, Finset.mem_range]
    exact ⟨⟨hr, hj⟩, hf⟩

/-- No two pixels of a sprite that is not taller than the screen fall on one place. -/
theorem coverage_le_one (h : rows.length ≤ 32) (px py : Nat) : coverage x y rows px py ≤ 1 := by
  rw [coverage, Finset.card_le_one]
  rintro ⟨r, j⟩ hp ⟨r', j'⟩ hq
  rw [Finset.mem_filter, Finset.mem_product, Finset.mem_range, Finset.mem_range, Falls] at hp hq
  have hr : r = r' := by omega
  have hj : j = j' := by omega
  rw [hr, hj]

theorem hit_draw_iff_of_le (s : Screen) (x y : Int) (h : rows.length ≤ 32) :
    (s.draw x y rows).2 = true ↔
      ∃ (px : Fin 64) (py : Fin 32), 0 < coverage x y rows px py ∧ s.lit px py = true := by
  rw [hit_draw_iff]
  refine exists_congr fun px => exists_congr fun py => ?_
  have hle := coverage_le_one (x := x) (y := y) h px py
  cases s.lit px py with
  | true =>
    simp only [Bool.toNat_true, and_true]
    omega
  | false =>
    rw [Bool.toNat_false]
    simp only [Bool.false_eq_true, and_false, iff_false]
    omega

/-- A sprite that is not taller than the screen turns over what it covers, and nothing else. -/
theorem lit_draw_ne_iff (s : Screen) (x y : Int) (h : rows.length ≤ 32) (px : Fin 64)
    (py : Fin 32) :
    (s.draw x y rows).1.lit px py ≠ s.lit px py ↔ 0 < coverage x y rows px py := by
  have hle := coverage_le_one (x := x) (y := y) h px py
  have hodd : coverage x y rows px py % 2 = 1 ↔ 0 < coverage x y rows px py := by omega
  rw [lit_draw, ← hodd]
  by_cases hc : coverage x y rows px py % 2 = 1 <;> simp [hc]

/-- Such a sprite collides exactly if it puts a lit pixel out. -/
theorem hit_draw_iff_putOut (s : Screen) (x y : Int) (h : rows.length ≤ 32) :
    (s.draw x y rows).2 = true ↔ ∃ (px : Fin 64) (py : Fin 32),
      s.lit px py = true ∧ (s.draw x y rows).1.lit px py = false := by
  rw [hit_draw_iff_of_le s x y h]
  refine exists_congr fun px => exists_congr fun py => ?_
  rw [← lit_draw_ne_iff s x y h, and_comm]
  refine and_congr_right fun hlit => ?_
  rw [hlit, Ne, Bool.not_eq_true]

/-- The position of a sprite counts by its column and its row on the screen. -/
theorem draw_emod (s : Screen) (x y : Int) (rows : List Int) :
    s.draw (x % 64) (y % 32) rows = s.draw x y rows := by
  have hcell (r j : Nat) : spriteCell (x % 64) (y % 32) r j = spriteCell x y r j := by
    simp only [spriteCell, Int.emod_add_emod]
  have hrow (bits : Int) (r : Nat) : rowCells (x % 64) (y % 32) bits r = rowCells x y bits r :=
    List.map_congr_left fun j _ => hcell r j
  simp only [draw, spriteCells, hrow]

/-- The place of a pixel of a sprite is where its column and its row, each reduced, say. -/
theorem val_spriteCell (x y : Int) (r j : Nat) :
    ((spriteCell x y r j).val : Int) = (y + r) % 32 * 64 + (x + j) % 64 := by
  simp only [spriteCell, cell]
  omega

/-- **The closed form of a drawn sprite.** A pixel is what it was, turned over once for each time the
sprite covers it; the places that are switched are those of the set pixels of the sprite, all of them on
the screen; and a collision is told of exactly if some pixel, lit before or not, is put out. -/
theorem draw_closedForm (s : Screen) (x y : Int) (rows : List Int) :
    (∀ (px : Fin 64) (py : Fin 32),
      (s.draw x y rows).1.lit px py =
        (s.lit px py ^^ decide (coverage x y rows px py % 2 = 1))) ∧
    (∀ i : Int, (∃ c ∈ spriteCells x y rows, (c.val : Int) = i) ↔
      ∃ r < rows.length, ∃ j < 8, (rows.getD r 0).testBit (7 - j) = true ∧
        i = (y + r) % 32 * 64 + (x + j) % 64) ∧
    ((s.draw x y rows).2 = true ↔
      ∃ (px : Fin 64) (py : Fin 32), 2 ≤ (s.lit px py).toNat + coverage x y rows px py) := by
  refine ⟨lit_draw s x y rows, fun i => ?_, hit_draw_iff s x y rows⟩
  constructor
  · rintro ⟨c, hc, rfl⟩
    obtain ⟨r, hr, j, hj, hbit, rfl⟩ := mem_spriteCells.mp hc
    exact ⟨r, hr, j, hj, hbit, val_spriteCell x y r j⟩
  · rintro ⟨r, hr, j, hj, hbit, rfl⟩
    exact ⟨spriteCell x y r j, mem_spriteCells.mpr ⟨r, hr, j, hj, hbit, rfl⟩, val_spriteCell x y r j⟩

/-- The row under the last one is the first one again. -/
example : coverage 0 (-1) (List.replicate 33 0x80) 0 31 = 2 := by decide +kernel

end Screen

/-! ## Sprites one after another -/

/-- A sprite and the place of its left upper corner. -/
structure Sprite where
  x : Int
  y : Int
  rows : List Int

namespace Sprite

def coverage (d : Sprite) (px py : Nat) : Nat :=
  Screen.coverage d.x d.y d.rows px py

def cells (d : Sprite) : List (Fin 2048) :=
  Screen.spriteCells d.x d.y d.rows

end Sprite

namespace Screen

/-- Draws a sprite; the flag tells of a collision. -/
def drawSprite (s : Screen) (d : Sprite) : Screen × Bool :=
  s.draw d.x d.y d.rows

def drawAll (s : Screen) (ds : List Sprite) : Screen :=
  ds.foldl (fun s d => (s.drawSprite d).1) s

theorem get_drawAll (ds : List Sprite) (s : Screen) (c : Fin 2048) :
    (s.drawAll ds).pixels.get c =
      (s.pixels.get c ^^ decide ((ds.flatMap Sprite.cells).count c % 2 = 1)) := by
  induction ds generalizing s with
  | nil => simp [drawAll]
  | cons d ds ih =>
    have hdraw := get_switchAll d.cells (s, false) c
    have hcons : s.drawAll (d :: ds) = (s.drawSprite d).1.drawAll ds := rfl
    rw [hcons, ih, List.flatMap_cons, List.count_append, decide_odd_add, ← Bool.xor_assoc]
    exact congrArg (· ^^ _) hdraw

/-- Sprites that switch each place equally often, but for pairs, leave the same screen. -/
theorem drawAll_congr (s : Screen) {ds ds' : List Sprite}
    (h : ∀ c, (ds.flatMap Sprite.cells).count c % 2 = (ds'.flatMap Sprite.cells).count c % 2) :
    s.drawAll ds = s.drawAll ds' := by
  refine ext_get fun c => ?_
  rw [get_drawAll, get_drawAll, h]

theorem drawAll_perm (s : Screen) {ds ds' : List Sprite} (h : ds.Perm ds') :
    s.drawAll ds = s.drawAll ds' :=
  drawAll_congr s fun c => by rw [(h.flatMap_right Sprite.cells).count_eq c]

theorem drawAll_twice (s : Screen) (d : Sprite) (before between after : List Sprite) :
    s.drawAll (before ++ d :: between ++ d :: after) =
      s.drawAll (before ++ between ++ after) := by
  refine drawAll_congr s fun c => ?_
  simp only [List.flatMap_append, List.flatMap_cons, List.count_append]
  omega

/-- What a sprite covers once is turned over. -/
theorem lit_drawSprite_of_pos (s : Screen) {d : Sprite} (h : d.rows.length ≤ 32) {px : Fin 64}
    {py : Fin 32} (hpos : 0 < d.coverage px py) :
    (s.drawSprite d).1.lit px py = !s.lit px py :=
  Bool.eq_not.mpr ((lit_draw_ne_iff s d.x d.y h px py).mpr hpos)

/-- **The algebra of drawing.** The pixels that sprites leave do not depend on the order of the sprites. A
sprite that is drawn twice leaves none of its own, whatever is drawn before, between and after. The first
drawing of a sprite collides with what is lit below it; a second drawing right after it, with what was
unlit. -/
theorem drawing_algebra (s : Screen) :
    (∀ ds ds' : List Sprite, ds.Perm ds' → s.drawAll ds = s.drawAll ds') ∧
    (∀ (d : Sprite) (before between after : List Sprite),
      s.drawAll (before ++ d :: between ++ d :: after) = s.drawAll (before ++ between ++ after)) ∧
    ∀ d : Sprite, d.rows.length ≤ 32 →
      ((s.drawSprite d).2 = true ↔
        ∃ (px : Fin 64) (py : Fin 32), 0 < d.coverage px py ∧ s.lit px py = true) ∧
      (((s.drawSprite d).1.drawSprite d).2 = true ↔
        ∃ (px : Fin 64) (py : Fin 32), 0 < d.coverage px py ∧ s.lit px py = false) := by
  refine ⟨fun ds ds' h => drawAll_perm s h, drawAll_twice s, fun d h => ?_⟩
  refine ⟨hit_draw_iff_of_le s d.x d.y h, ?_⟩
  refine (hit_draw_iff_of_le _ d.x d.y h).trans (exists_congr fun px => exists_congr fun py => ?_)
  refine and_congr_right fun hpos => ?_
  rw [lit_drawSprite_of_pos s h hpos, Bool.not_eq_true']

/-- Two rows that wrap around the right edge. -/
def bar : Sprite :=
  ⟨60, 3, [0xFF, 0xFF]⟩

/-- One row across a bar. -/
def stroke : Sprite :=
  ⟨-6, 4, [0xC3]⟩

/-- A stroke on a bar is the bar on the stroke; a bar drawn again over both leaves the stroke, and collides
as the first bar did not. -/
theorem bar_and_stroke :
    dark.drawAll [bar, stroke] = dark.drawAll [stroke, bar] ∧
    dark.drawAll [bar, stroke, bar] = dark.drawAll [stroke] ∧
    bar.rows.length ≤ 32 ∧ (dark.drawSprite bar).2 = false ∧
    ((dark.drawSprite bar).1.drawSprite bar).2 = true := by
  obtain ⟨hperm, htwice, hcollide⟩ := drawing_algebra dark
  have hle : bar.rows.length ≤ 32 := by decide
  obtain ⟨hfirst, hsecond⟩ := hcollide bar hle
  refine ⟨hperm _ _ (.swap _ _ _), htwice bar [] [stroke] [], hle, ?_, ?_⟩
  · rw [Bool.eq_false_iff, Ne, hfirst]
    rintro ⟨px, py, -, hlit⟩
    simp [dark, lit] at hlit
  · exact hsecond.mpr ⟨0, 3, by decide +kernel, by decide +kernel⟩

end Screen
end Chip8
