/-!
# Chip8.Screen

The screen of 64 by 32 pixels. Sprites are drawn by switching pixels over; a pixel that a sprite
switches off is a collision.
-/

namespace Chip8

/-- Pixels row by row from the top left corner; `true` is lit. -/
structure Screen where
  pixels : Vector Bool 2048
  deriving DecidableEq

namespace Screen

def width : Nat := 64

def height : Nat := 32

/-- The place of a pixel; columns and rows wrap around the edges. -/
def cell (x y : Nat) : Fin 2048 :=
  ⟨y % 32 * 64 + x % 64, by omega⟩

def dark : Screen :=
  ⟨Vector.replicate 2048 false⟩

/-- Whether the pixel in column `x` of row `y` is lit. -/
def lit (s : Screen) (x y : Nat) : Bool :=
  s.pixels[cell x y]

/-- Whether a sprite row has its pixel in column `j`. Of a row only the low eight bits count, and
the highest of them is leftmost. -/
def spriteBit (bits : Int) (j : Nat) : Bool :=
  (bits % 256).toNat.testBit (7 - j)

/-- The place of column `j` of a sprite row drawn from `(x, y)`. -/
def spriteCell (x y : Int) (r j : Nat) : Fin 2048 :=
  cell ((x + j) % 64).toNat ((y + r) % 32).toNat

/-- The places that one sprite row switches over, from the left. -/
def rowCells (x y : Int) (bits : Int) (r : Nat) : List (Fin 2048) :=
  ((List.range 8).filter (spriteBit bits)).map (spriteCell x y r)

/-- The places that a sprite switches over, row by row. -/
def spriteCells (x y : Int) (rows : List Int) : List (Fin 2048) :=
  rows.zipIdx.flatMap fun (bits, r) => rowCells x y bits r

/-- Switches one pixel over and remembers whether a lit one went out. -/
def switch : Screen × Bool → Fin 2048 → Screen × Bool
  | (s, hit), c =>
    let was := s.pixels[c]
    (⟨s.pixels.set c (!was) c.isLt⟩, hit || was)

/-- Draws sprite rows with the left column at `x` and the first row at `y`; the flag tells of a
collision. -/
def draw (s : Screen) (x y : Int) (rows : List Int) : Screen × Bool :=
  (spriteCells x y rows).foldl switch (s, false)

/-- The rows from the top, each from the left. -/
def rows (s : Screen) : List (List Bool) :=
  (List.range 32).map fun y => (s.pixels.extract (y * 64) ((y + 1) * 64)).toList

def litCount (s : Screen) : Nat :=
  s.pixels.toList.count true

/-- One line per row. -/
def lines (s : Screen) (on off : String) : List String :=
  s.rows.map fun row => String.join (row.map fun p => if p then on else off)

def text (s : Screen) (on off : String) : String :=
  "\n".intercalate (s.lines on off)

/-- The lines as the commands print them. -/
def plainLines (s : Screen) : List String :=
  s.lines "#" "."

/-- A position outside the screen. -/
structure PositionError where
  x : Int
  y : Int
  deriving DecidableEq, Repr

def PositionError.message (e : PositionError) : String :=
  "Invalid position (" ++ toString e.x ++ ", " ++ toString e.y ++ ")"

/-- The pixel at a position, refused outside the screen. -/
def pixel (s : Screen) (x y : Int) : Except PositionError Bool :=
  if 0 ≤ x ∧ x < 64 ∧ 0 ≤ y ∧ y < 32 then .ok (s.lit x.toNat y.toNat) else .error ⟨x, y⟩

def summary (s : Screen) : String :=
  "Display(64x32, lit=" ++ toString s.litCount ++ ")"

end Screen
end Chip8
