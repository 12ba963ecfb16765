import Chip8.Random.Twister

/-!
# Chip8.Random

Where the bytes of the random instruction come from.
-/

namespace Chip8

inductive RandomSource where
  /-- The bytes of a list, over and over; `used` of them are taken. -/
  | cycle (bytes : Array UInt8) (used : Nat)
  | twister (t : Twister)
  deriving DecidableEq

namespace RandomSource

def ofSeed (seed : Int) : RandomSource :=
  .twister (Twister.ofSeed seed)

def ofBytes (bytes : Array UInt8) : RandomSource :=
  .cycle bytes 0

/-- The next byte and the source after it. -/
def next : RandomSource → UInt8 × RandomSource
  | cycle bytes used => (bytes.getD (used % bytes.size) 0, cycle bytes (used + 1))
  | twister t =>
    let (b, t) := t.byte
    (b, twister t)

end RandomSource
end Chip8
