import Chip8.Raster

/-!
# Chip8.Raster.Png

A raster as the bytes of a PNG file: eight-bit grey, no filter, blocks that are stored as they are.
-/

namespace Chip8
namespace Raster

/-- One bit of the checksum that closes a chunk. -/
def crcBit (c : UInt32) : UInt32 :=
  if c &&& 1 = 1 then (c >>> 1) ^^^ 0xEDB88320 else c >>> 1

def crcByte (c : UInt32) (b : UInt8) : UInt32 :=
  (List.range 8).foldl (fun c _ => crcBit c) (c ^^^ b.toUInt32)

def crc (bytes : List UInt8) : UInt32 :=
  bytes.foldl crcByte 0xFFFFFFFF ^^^ 0xFFFFFFFF

/-- The checksum that closes the pixel data: two sums modulo the largest prime below 2^16. -/
def adler (bytes : List UInt8) : UInt32 :=
  let (a, b) := bytes.foldl
    (fun (a, b) byte =>
      let a := (a + byte.toUInt32) % 65521
      (a, (b + a) % 65521))
    (1, 0)
  b * 65536 + a

/-- Four bytes, the highest first. -/
def bigEndian (n : UInt32) : List UInt8 :=
  [(n >>> 24).toUInt8, (n >>> 16).toUInt8, (n >>> 8).toUInt8, n.toUInt8]

/-- Length, kind, data and checksum. -/
def chunk (kind : List UInt8) (data : List UInt8) : List UInt8 :=
  bigEndian (UInt32.ofNat data.length) ++ kind ++ data ++ bigEndian (crc (kind ++ data))

/-- A block of at most 65535 bytes; its length stands before it twice, once inverted. -/
def storedBlock (last : Bool) (data : List UInt8) : List UInt8 :=
  let n := UInt16.ofNat data.length
  [if last then 1 else 0, n.toUInt8, (n >>> 8).toUInt8, (~~~n).toUInt8, (~~~n >>> 8).toUInt8] ++
    data

def storedBlocks (data : List UInt8) : List UInt8 :=
  if data.length ≤ 65535 then storedBlock true data
  else storedBlock false (data.take 65535) ++ storedBlocks (data.drop 65535)
termination_by data.length
decreasing_by
  simp only [List.length_drop]
  omega

/-- Each row is led by a byte that says it has no filter. -/
def scanLines (r : Raster) : List UInt8 :=
  r.rows.flatMap fun row => 0 :: row.map fun p => if p then 255 else 0

def signature : List UInt8 :=
  [0x89, 0x50, 0x4E, 0x47, 0x0D, 0x0A, 0x1A, 0x0A]

def png (r : Raster) : List UInt8 :=
  let data := r.scanLines
  let size := bigEndian (UInt32.ofNat r.width) ++ bigEndian (UInt32.ofNat r.height)
  signature ++ chunk [0x49, 0x48, 0x44, 0x52] (size ++ [8, 0, 0, 0, 0]) ++
    chunk [0x49, 0x44, 0x41, 0x54] ([0x78, 0x01] ++ storedBlocks data ++ bigEndian (adler data)) ++
    chunk [0x49, 0x45, 0x4E, 0x44] []

end Raster
end Chip8
