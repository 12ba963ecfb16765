import Chip8.Proofs.Sprite
import Chip8.Raster
import Mathlib.Data.Fintype.Fin

/-!
# Chip8.Proofs.Views

The views of the screen: its rows, the text, the picture at a scale and the count. Each is taken from the
pixels in its own way, and each shows what `Screen.pixel` tells of single positions.

* `Tabulates`         : rows of equal width, and what stands at each of their places.
* `Screen.Prints`     : what a text says of a screen, and that it says all of it.
* `Raster.Replicates` : how the picture of a screen is enlarged. `replicates_resize` has it of `resize`, as
  long as there is room.

Main statement: `views_agree`.
-/

namespace Chip8

/-! ## Places row by row -/

theorem place_lt {width height x y : Nat} (hx : x < width) (hy : y < height) :
    y * width + x < height * width := by
  have hle := Nat.mul_le_mul_right width (Nat.succ_le_of_lt hy)
  rw [Nat.succ_mul] at hle
  omega

theorem place_div {width x : Nat} (hx : x < width) (y : Nat) : (y * width + x) / width = y := by
  rw [Nat.mul_comm, Nat.mul_add_div (Nat.zero_lt_of_lt hx), Nat.div_eq_of_lt hx, Nat.add_zero]

theorem place_mod {width x : Nat} (hx : x < width) (y : Nat) : (y * width + x) % width = x :=
  (Nat.mul_add_mod_self_right y width x).trans (Nat.mod_eq_of_lt hx)

section Table

variable {width height : Nat} {f : Nat → Nat → Option α} {rows : List (List α)}

/-- What stands in column `x` of row `y`. -/
def place? (rows : List (List α)) (x y : Nat) : Option α :=
  rows[y]?.bind (·[x]?)

structure Tabulates (width height : Nat) (f : Nat → Nat → Option α) (rows : List (List α)) : Prop where
  height : rows.length = height
  width : ∀ row ∈ rows, row.length = width
  place : ∀ x y, place? rows x y = f x y

theorem Tabulates.map (h : Tabulates width height f rows) (g : α → β) :
    Tabulates width height (fun x y => (f x y).map g) (rows.map (·.map g)) where
  height := by rw [List.length_map, h.height]
  width := by
    rw [List.forall_mem_map]
    intro row hrow
    rw [List.length_map, h.width row hrow]
  place x y := by
    rw [← h.place, place?, place?, List.getElem?_map]
    cases rows[y]? with
    | none => rfl
    | some row => exact List.getElem?_map

theorem Tabulates.unique {rows' : List (List α)} (h : Tabulates width height f rows)
    (h' : Tabulates width height f rows') : rows = rows' := by
  refine List.ext_getElem (h.height.trans h'.height.symm) fun y hy hy' => List.ext_getElem? fun x => ?_
  have hplace := (h.place x y).trans (h'.place x y).symm
  rw [place?, place?, List.getElem?_eq_getElem hy, List.getElem?_eq_getElem hy'] at hplace
  exact hplace

end Table

namespace Raster

variable {width height k : Nat} {f : Nat → Nat → Option α} {rows : List (List α)}

theorem length_stretch (k : Nat) (xs : List α) : (stretch k xs).length = xs.length * k := by
  simp [stretch, List.length_flatMap]

theorem getElem?_stretch (hk : 0 < k) (xs : List α) (i : Nat) : (stretch k xs)[i]? = xs[i / k]? := by
  induction xs generalizing i with
  | nil => rfl
  | cons a xs ih =>
    have hcons : stretch k (a :: xs) = List.replicate k a ++ stretch k xs := rfl
    -- the first block is the one of `a`
    obtain hin | hbehind := Nat.lt_or_ge i k
    · rw [hcons, List.getElem?_append_left (by simpa using hin), Nat.div_eq_of_lt hin,
        List.getElem?_replicate_of_lt hin, List.getElem?_cons_zero]
    · obtain ⟨j, rfl⟩ := Nat.exists_eq_add_of_le hbehind
      rw [hcons, List.getElem?_append_right (by simp), List.length_replicate, Nat.add_sub_cancel_left, ih,
        Nat.add_div_left j hk, List.getElem?_cons_succ]

theorem tabulates_stretch (h : Tabulates width height f rows) (hk : 0 < k) :
    Tabulates (width * k) (height * k) (fun x y => f (x / k) (y / k))
      (stretch k (rows.map (stretch k))) where
  height := by rw [length_stretch, List.length_map, h.height]
  width := by
    intro row hrow
    obtain ⟨r, hr, hrow⟩ := List.mem_flatMap.mp hrow
    obtain ⟨r, hmem, rfl⟩ := List.mem_map.mp hr
    rw [List.eq_of_mem_replicate hrow, length_stretch, h.width r hmem]
  place x y := by
    rw [← h.place, place?, place?, getElem?_stretch hk, List.getElem?_map]
    cases rows[y / k]? with
    | none => rfl
    | some row => exact getElem?_stretch hk row x

theorem tabulates_layOut {data : List α} (h : data.length = height * width) :
    Tabulates width height (fun x y => if x < width then data[y * width + x]? else none)
      (layOut width height data) := by
  induction height generalizing data with
  | zero =>
    rw [Nat.zero_mul, List.length_eq_zero_iff] at h
    subst h
    exact ⟨rfl, by simp [layOut], by simp [layOut, place?]⟩
  | succ height ih =>
    rw [Nat.succ_mul] at h
    have hdrop : (data.drop width).length = height * width := by
      rw [List.length_drop, h, Nat.add_sub_cancel]
    obtain ⟨hheight, hwidth, hplace⟩ := ih hdrop
    refine ⟨?_, ?_, fun x y => ?_⟩
    · rw [layOut, List.length_cons, hheight]
    · rw [layOut, List.forall_mem_cons, List.length_take, h]
      exact ⟨by omega, hwidth⟩
    · cases y with
      | zero =>
        simp only [layOut, place?, List.getElem?_cons_zero, Option.bind_some, List.getElem?_take,
          Nat.zero_mul, Nat.zero_add]
      | succ y =>
        have hnext : width + (y * width + x) = (y + 1) * width + x := by
          rw [Nat.succ_mul]
          omega
        have hcons : place? (layOut width (height + 1) data) x (y + 1) =
            place? (layOut width height (data.drop width)) x y := by
          simp only [layOut, place?, List.getElem?_cons_succ]
        rw [hcons, hplace, List.getElem?_drop, hnext]

end Raster

namespace Screen

variable {s : Screen} {on off : Char}

/-- The pixel at a position, if there is one. -/
def pixel? (s : Screen) (x y : Nat) : Option Bool :=
  (s.pixel x y).toOption

theorem pixel?_eq_some_iff {x y : Nat} {b : Bool} : s.pixel? x y = some b ↔ s.pixel x y = .ok b := by
  rw [pixel?]
  cases s.pixel x y <;> simp [Except.toOption]

/-- The pixels one after another, row by row. -/
theorem pixel?_eq (s : Screen) (x y : Nat) :
    s.pixel? x y = if x < 64 then s.pixels[y * 64 + x]? else none := by
  by_cases h : x < 64 ∧ y < 32
  · have hcell : (cell x y).val = y * 64 + x := val_cell ⟨x, h.1⟩ ⟨y, h.2⟩
    have hpos : (0 : Int) ≤ x ∧ (x : Int) < 64 ∧ (0 : Int) ≤ y ∧ (y : Int) < 32 := by omega
    rw [pixel?, pixel, if_pos hpos, if_pos h.1, ← hcell, Vector.getElem?_eq_getElem (cell x y).isLt]
    rfl
  · have hout : ¬((0 : Int) ≤ x ∧ (x : Int) < 64 ∧ (0 : Int) ≤ y ∧ (y : Int) < 32) := by omega
    rw [pixel?, pixel, if_neg hout]
    by_cases hx : x < 64
    · rw [if_pos hx, Vector.getElem?_eq_none (by omega)]
      rfl
    · rw [if_neg hx]
      rfl

theorem pixel?_eq_get (s : Screen) (x : Fin 64) (y : Fin 32) :
    s.pixel? x y = some (s.pixels.get (cell x y)) := by
  rw [pixel?_eq, if_pos x.isLt, ← val_cell, Vector.getElem?_eq_getElem (cell x y).isLt]
  rfl

/-! ## Rows -/

theorem tabulates_rows (s : Screen) : Tabulates 64 32 s.pixel? s.rows where
  height := by simp [rows]
  width := by
    simp only [rows, List.forall_mem_map, List.mem_range, Vector.length_toList]
    intro y hy
    omega
  place x y := by
    rw [pixel?_eq, place?, rows, List.getElem?_map]
    obtain hy | hy := Nat.lt_or_ge y 32
    · have hsize : min ((y + 1) * 64) 2048 - y * 64 = 64 := by omega
      rw [List.getElem?_range hy, Option.map_some, Option.bind_some, Vector.getElem?_toList,
        Vector.getElem?_extract, hsize]
    · rw [List.getElem?_eq_none (by simpa using hy), Vector.getElem?_eq_none (by omega), ite_self]
      rfl

theorem rows_eq_layOut (s : Screen) : s.rows = Raster.layOut 64 32 s.pixels.toList := by
  have hlayOut := @Raster.tabulates_layOut _ 64 32 _ s.pixels.length_toList
  have hpixels : (fun x y => if x < 64 then s.pixels.toList[y * 64 + x]? else none) = s.pixel? := by
    funext x y
    rw [pixel?_eq, Vector.getElem?_toList]
  rw [hpixels] at hlayOut
  exact s.tabulates_rows.unique hlayOut

/-! ## Text -/

/-- The lines of a text, without the breaks between them. -/
def textLines (text : String) : List (List Char) :=
  text.toList.splitOn '\n'

/-- The screen that a text shows, read off the lit places. -/
def ofText (on : Char) (text : String) : Screen :=
  ⟨Vector.ofFn fun c => decide (place? (textLines text) (c % 64) (c / 64) = some on)⟩

/-- A text of a screen: 32 lines of 64 characters, of which those for the lit pixels tell the screen. -/
structure Prints (s : Screen) (on off : Char) (text : String) : Prop where
  lines : Tabulates 64 32 (fun x y => (s.pixel? x y).map fun lit => if lit then on else off)
    (textLines text)
  on_iff : ∀ x y : Nat, place? (textLines text) x y = some on ↔ s.pixel x y = .ok true
  recovers : ofText on text = s

theorem map_toList_lines (s : Screen) (on off : Char) :
    (s.lines on.toString off.toString).map String.toList =
      s.rows.map (·.map fun lit => if lit then on else off) := by
  rw [lines, List.map_map]
  refine List.map_congr_left fun row _ => ?_
  rw [Function.comp_apply, String.toList_join, List.flatMap_map, List.map_eq_flatMap]
  refine congrArg (row.flatMap ·) (funext fun lit => ?_)
  cases lit <;> exact String.toList_singleton _

/-- No line breaks within, so that the text falls apart into its lines. -/
theorem textLines_text (s : Screen) (hon : on ≠ '\n') (hoff : off ≠ '\n') :
    textLines (s.text on.toString off.toString) =
      s.rows.map (·.map fun lit => if lit then on else off) := by
  have hbreak : ∀ l ∈ s.rows.map (·.map fun lit => if lit then on else off), '\n' ∉ l := by
    intro l hl hmem
    obtain ⟨row, -, rfl⟩ := List.mem_map.mp hl
    obtain ⟨lit, -, hchar⟩ := List.mem_map.mp hmem
    cases lit with
    | true => exact hon hchar
    | false => exact hoff hchar
  have hne : s.rows.map (·.map fun lit => if lit then on else off) ≠ [] := by
    rw [Ne, List.map_eq_nil_iff, ← List.length_eq_zero_iff, s.tabulates_rows.height]
    exact Nat.succ_ne_zero 31
  rw [textLines, text, String.toList_intercalate, map_toList_lines]
  exact List.splitOn_intercalate '\n' hbreak hne

theorem prints_text (s : Screen) (hne : on ≠ off) (hon : on ≠ '\n') (hoff : off ≠ '\n') :
    s.Prints on off (s.text on.toString off.toString) := by
  have hlines : Tabulates 64 32 (fun x y => (s.pixel? x y).map fun lit => if lit then on else off)
      (textLines (s.text on.toString off.toString)) := by
    rw [textLines_text s hon hoff]
    exact s.tabulates_rows.map _
  have hlit (x y : Nat) : place? (textLines (s.text on.toString off.toString)) x y = some on ↔
      s.pixel? x y = some true := by
    rw [hlines.place, Option.map_eq_some_iff]
    constructor
    · rintro ⟨lit, hlit, hchar⟩
      cases lit with
      | true => exact hlit
      | false => exact absurd hchar.symm hne
    · intro h
      exact ⟨true, h, rfl⟩
  refine ⟨hlines, fun x y => (hlit x y).trans pixel?_eq_some_iff, ext_get fun c => ?_⟩
  obtain ⟨x, y, rfl⟩ := exists_cell c
  have hget (g : Fin 2048 → Bool) : (Vector.ofFn g).get (cell x y) = g (cell x y) :=
    Vector.getElem_ofFn (cell x y).isLt
  rw [ofText, hget, val_cell, place_mod x.isLt, place_div x.isLt, Bool.eq_iff_iff, decide_eq_true_iff,
    hlit, pixel?_eq_get, Option.some.injEq]

/-! ## The count -/

def litPositions (s : Screen) : Finset (Nat × Nat) :=
  (Finset.range 64 ×ˢ Finset.range 32).filter fun p => s.pixel? p.1 p.2 = some true

/-- The places that hold `true`, counted by column and row. -/
theorem count_toList {n width height : Nat} (v : Vector Bool n) (hn : n = height * width) :
    v.toList.count true = ((Finset.range width ×ˢ Finset.range height).filter fun p =>
      v[p.2 * width + p.1]? = some true).card := by
  have hcount : v.toList.count true = (Finset.univ.filter fun c => v.get c = true).card :=
    (Fin.card_filter_univ_eq_vector_get_eq_count true ⟨v.toList, v.length_toList⟩).symm
  have hget (c : Fin n) : v[c.val]? = some true ↔ v.get c = true := by
    rw [Vector.getElem?_eq_getElem c.isLt, Option.some.injEq]
    rfl
  rw [hcount]
  refine Finset.card_bij (fun c _ => (c.val % width, c.val / width)) ?_ ?_ ?_
  · intro c hc
    have hlt : c.val < height * width := hn ▸ c.isLt
    have hpos : 0 < width := Nat.pos_of_lt_mul_left hlt
    have hplace : c.val / width * width + c.val % width = c.val := Nat.div_add_mod' c.val width
    rw [Finset.mem_filter] at hc
    rw [Finset.mem_filter, Finset.mem_product, Finset.mem_range, Finset.mem_range, hplace, hget]
    exact ⟨⟨Nat.mod_lt _ hpos, Nat.div_lt_of_lt_mul (Nat.mul_comm height width ▸ hlt)⟩, hc.2⟩
  · intro c _ d _ hcd
    rw [Prod.mk.injEq] at hcd
    have hc := Nat.div_add_mod' c.val width
    rw [hcd.1, hcd.2, Nat.div_add_mod'] at hc
    exact Fin.ext hc.symm
  · rintro ⟨x, y⟩ hp
    rw [Finset.mem_filter, Finset.mem_product, Finset.mem_range, Finset.mem_range] at hp
    obtain ⟨⟨hx, hy⟩, hlit⟩ := hp
    have hlt : y * width + x < n := hn ▸ place_lt hx hy
    refine ⟨⟨y * width + x, hlt⟩, ?_, Prod.ext (place_mod hx y) (place_div hx y)⟩
    rw [Finset.mem_filter]
    exact ⟨Finset.mem_univ _, (hget ⟨_, hlt⟩).mp hlit⟩

theorem litCount_eq_card (s : Screen) : s.litCount = s.litPositions.card := by
  have hsize : 2048 = 32 * 64 := rfl
  rw [litCount, count_toList s.pixels hsize, litPositions]
  refine congrArg Finset.card (Finset.ext fun p => ?_)
  rw [Finset.mem_filter, Finset.mem_filter, Finset.mem_product, Finset.mem_range]
  refine and_congr_right fun hp => ?_
  rw [pixel?_eq, if_pos hp.1]

end Screen

/-! ## Pictures -/

namespace Raster

variable {r : Raster} {s : Screen} {k : Nat}

/-- A picture of a size with `f x y` in column `x` of row `y`. -/
structure Pictures (r : Raster) (w h : Nat) (f : Nat → Nat → Option Bool) : Prop where
  width : r.width = w
  height : r.height = h
  rows : Tabulates w h f r.rows

/-- Enlarging a picture of the screen's size `k` times makes a block of side `k` of every place. -/
def Replicates (resizer : Raster → Int → Int → Except ScaleError Raster) (k : Nat) : Prop :=
  ∀ r f, r.Pictures 64 32 f → ∃ r', resizer r (64 * k) (32 * k) = .ok r' ∧
    r'.Pictures (64 * k) (32 * k) fun x y => f (x / k) (y / k)

theorem pictures_ofScreen (s : Screen) : (ofScreen s).Pictures 64 32 s.pixel? where
  width := rfl
  height := rfl
  rows := by
    have hpixel : s.pixel? = fun x y => if x < 64 then s.pixels.toList[y * 64 + x]? else none := by
      funext x y
      rw [Vector.getElem?_toList, s.pixel?_eq]
    rw [hpixel]
    exact tabulates_layOut s.pixels.length_toList

theorem pictures_renderBy {resizer : Raster → Int → Int → Except ScaleError Raster} (s : Screen)
    (hk : 0 < k) (h : Replicates resizer k) :
    ∃ r, renderBy resizer s k = .ok r ∧
      r.Pictures (64 * k) (32 * k) fun x y => s.pixel? (x / k) (y / k) := by
  have hscale : ¬(k : Int) < 1 := by omega
  rw [renderBy, if_neg hscale]
  -- at the scale 1 nothing is enlarged
  by_cases hone : k = 1
  · subst hone
    refine ⟨ofScreen s, if_pos rfl, ?_⟩
    simp only [Nat.div_one, Nat.mul_one]
    exact pictures_ofScreen s
  · rw [if_neg (by omega)]
    exact h _ _ (pictures_ofScreen s)

theorem replicates_resize (hk : 0 < k) (hroom : 64 * k * (32 * k) ≤ maxPixels) : Replicates resize k := by
  intro r f hr
  obtain ⟨hwidth, hheight, hrows⟩ := hr
  have hmax : maxPixels = 4294967296 := rfl
  have hle : k ≤ 1448 := by
    refine Nat.le_of_not_lt fun hlt => ?_
    have hmul := Nat.mul_le_mul (Nat.mul_le_mul_left 64 hlt) (Nat.mul_le_mul_left 32 hlt)
    omega
  have hfits : ¬(maxPixels : Int) < 64 * k * (32 * k) := by exact_mod_cast Nat.not_lt.mpr hroom
  refine ⟨r.nearest (64 * k) (32 * k), ?_, rfl, rfl, ?_⟩
  · rw [resize, if_neg (by omega), if_neg (by omega), if_neg hfits]
    rfl
  · have hrow : 64 * k / r.width = k := by
      rw [hwidth]
      omega
    have hcolumn : 32 * k / r.height = k := by
      rw [hheight]
      omega
    rw [nearest, hrow, hcolumn]
    exact tabulates_stretch hrows hk

end Raster

namespace Screen

/-- **All views agree.** The rows, the lines of a text, the picture at any scale and the count show the same
pixels, those at the positions. -/
theorem views_agree (s : Screen) :
    Tabulates 64 32 s.pixel? s.rows ∧
    (∀ on off : Char, on ≠ off → on ≠ '\n' → off ≠ '\n' →
      s.Prints on off (s.text on.toString off.toString)) ∧
    (∀ (resizer : Raster → Int → Int → Except ScaleError Raster) (k : Nat), 0 < k →
      Raster.Replicates resizer k → ∃ r, Raster.renderBy resizer s k = .ok r ∧
        r.Pictures (64 * k) (32 * k) fun x y => s.pixel? (x / k) (y / k)) ∧
    s.litCount = s.litPositions.card := by
  refine ⟨s.tabulates_rows, fun on off hne hon hoff => s.prints_text hne hon hoff, ?_, s.litCount_eq_card⟩
  intro resizer k hk hreplicates
  exact Raster.pictures_renderBy s hk hreplicates

/-- A stroke over the right edge, not symmetric in any way. -/
def overEdge : Screen :=
  (dark.drawSprite ⟨62, 3, [0xB0]⟩).1

theorem overEdge_views :
    '#' ≠ '.' ∧ '#' ≠ '\n' ∧ '.' ≠ '\n' ∧ ofText '#' (overEdge.text "#" ".") = overEdge ∧
    0 < 3 ∧ Raster.Replicates Raster.resize 3 ∧
    ∃ r, Raster.render overEdge 3 = .ok r ∧ r.width = 192 ∧ r.height = 96 ∧
      place? r.rows 188 11 = some true ∧ place? r.rows 191 11 = some false ∧
      place? r.rows 5 9 = some true := by
  have hreplicates : Raster.Replicates Raster.resize 3 := Raster.replicates_resize (by decide) (by decide)
  obtain ⟨-, hprints, hpictures, -⟩ := views_agree overEdge
  obtain ⟨r, hrender, hwidth, hheight, hrows⟩ := hpictures Raster.resize 3 (by decide) hreplicates
  refine ⟨by decide, by decide, by decide,
    (hprints '#' '.' (by decide) (by decide) (by decide)).recovers, by decide, hreplicates, r, hrender,
    hwidth, hheight, ?_, ?_, ?_⟩
  · exact (hrows.place 188 11).trans (by decide +kernel)
  · exact (hrows.place 191 11).trans (by decide +kernel)
  · exact (hrows.place 5 9).trans (by decide +kernel)

end Screen
end Chip8
