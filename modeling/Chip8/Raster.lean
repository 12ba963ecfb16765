import Chip8.Screen

/-!
# Chip8.Raster

A black and white picture of the screen in which every pixel is a square block.
-/

namespace Chip8

/-- Rows from the top, each from the left; `true` is white. -/
structure Raster where
  width : Nat
  height : Nat
  rows : List (List Bool)
  deriving DecidableEq

/-- Why there is no picture at a scale. -/
inductive ScaleError where
  /-- A block has at least one pixel on a side. -/
  | tooSmall (scale : Int)
  /-- The width is no 32-bit number. -/
  | tooWide
  /-- The width is not even a 64-bit number. -/
  | beyondWord
  /-- The width fits, but the pixels are too many. -/
  | noRoom
  deriving DecidableEq, Repr

def ScaleError.message : ScaleError → String
  | tooSmall scale => "scale must be >= 1, got " ++ toString scale
  | tooWide => "signed integer is greater than maximum"
  | beyondWord => "Python int too large to convert to C long"
  | noRoom => ""

namespace Raster

/-- Every element `k` times over. -/
def stretch (k : Nat) (xs : List α) : List α :=
  xs.flatMap (List.replicate k)

/-- Places one after another, laid out in rows from the top. -/
def layOut (width : Nat) : Nat → List α → List (List α)
  | 0, _ => []
  | height + 1, data => data.take width :: layOut width height (data.drop width)

/-- The picture with one place for every pixel. -/
def ofScreen (s : Screen) : Raster where
  width := 64
  height := 32
  rows := layOut 64 32 s.pixels.toList

/-- Each column and each row as often over as it goes into the new size. -/
def nearest (r : Raster) (width height : Nat) : Raster where
  width
  height
  rows := stretch (height / r.height) (r.rows.map (stretch (width / r.width)))

/-- The pixels that there is room for, a byte each. -/
def maxPixels : Nat := 0x100000000

/-- The nearest picture of another size, if there is room for it. A width is a signed number. -/
def resize (r : Raster) (width height : Int) : Except ScaleError Raster :=
  if 0x8000000000000000 ≤ width then .error .beyondWord
  else if 0x80000000 ≤ width then .error .tooWide
  else if maxPixels < width * height then .error .noRoom
  else .ok (r.nearest width.toNat height.toNat)

/-- The picture at a scale. One of a larger size is left to `resizer`. -/
def renderBy (resizer : Raster → Int → Int → Except ScaleError Raster) (s : Screen) (scale : Int) :
    Except ScaleError Raster :=
  if scale < 1 then .error (.tooSmall scale)
  else if scale = 1 then .ok (ofScreen s)
  else resizer (ofScreen s) (64 * scale) (32 * scale)

def render (s : Screen) (scale : Int) : Except ScaleError Raster :=
  renderBy resize s scale

end Raster
end Chip8
