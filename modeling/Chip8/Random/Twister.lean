/-!
# Chip8.Random.Twister

The Mersenne twister MT19937, seeded by a key of 32-bit words.
-/

namespace Chip8

/-- A block of 624 words and how many of them are used up. -/
structure Twister where
  words : Vector UInt32 624
  used : Nat
  deriving DecidableEq

namespace Twister

/-- The word at a place counted around the block. -/
def word (w : Vector UInt32 624) (k : Nat) : UInt32 :=
  w[k % 624]

def setWord (w : Vector UInt32 624) (k : Nat) (x : UInt32) : Vector UInt32 624 :=
  w.set (k % 624) x

/-- The word before place `k`, folded with its two high bits. -/
def mixed (w : Vector UInt32 624) (k : Nat) : UInt32 :=
  let p := word w (k - 1)
  p ^^^ (p >>> 30)

/-- The block that grows from one word. -/
def spread (seed : UInt32) : Vector UInt32 624 :=
  (List.range 623).foldl
    (fun w k => setWord w (k + 1) (1812433253 * mixed w (k + 1) + UInt32.ofNat (k + 1)))
    (setWord (Vector.replicate 624 0) 0 seed)

/-- After the last place the walk goes on at place one, with the last word copied to place zero. -/
def turn (w : Vector UInt32 624) (k : Nat) : Vector UInt32 624 × Nat :=
  if k + 1 ≥ 624 then (setWord w 0 (word w 623), 1) else (w, k + 1)

/-- Stirs the key into the block; `j` is the place in the key. -/
def stirKey (key : Array UInt32) : (steps : Nat) → Vector UInt32 624 → (k j : Nat) →
    Vector UInt32 624 × Nat
  | 0, w, k, _ => (w, k)
  | steps + 1, w, k, j =>
    let x := (word w k ^^^ (mixed w k * 1664525)) + key.getD j 0 + UInt32.ofNat j
    let (w, k) := turn (setWord w k x) k
    stirKey key steps w k (if j + 1 ≥ key.size then 0 else j + 1)

/-- Stirs the places of the block into it. -/
def stirPlaces : (steps : Nat) → Vector UInt32 624 → (k : Nat) → Vector UInt32 624
  | 0, w, _ => w
  | steps + 1, w, k =>
    let x := (word w k ^^^ (mixed w k * 1566083941)) - UInt32.ofNat k
    let (w, k) := turn (setWord w k x) k
    stirPlaces steps w k

def ofKey (key : Array UInt32) : Twister :=
  let (w, k) := stirKey key (max 624 key.size) (spread 19650218) 1 0
  ⟨setWord (stirPlaces 623 w k) 0 0x80000000, 624⟩

/-- The 32-bit words of a number, lowest first. -/
def keyWords (n : Nat) : List UInt32 :=
  if n < 0x100000000 then [UInt32.ofNat n] else UInt32.ofNat n :: keyWords (n / 0x100000000)
termination_by n
decreasing_by omega

/-- The sign of a seed does not matter. -/
def ofSeed (seed : Int) : Twister :=
  ofKey (keyWords seed.natAbs).toArray

/-- The next block. -/
def twist (w : Vector UInt32 624) : Vector UInt32 624 :=
  (List.range 624).foldl
    (fun w k =>
      let y := (word w k &&& 0x80000000) ||| (word w (k + 1) &&& 0x7fffffff)
      setWord w k (word w (k + 397) ^^^ (y >>> 1) ^^^ (if y &&& 1 = 1 then 0x9908b0df else 0)))
    w

def temper (y : UInt32) : UInt32 :=
  let y := y ^^^ (y >>> 11)
  let y := y ^^^ ((y <<< 7) &&& 0x9d2c5680)
  let y := y ^^^ ((y <<< 15) &&& 0xefc60000)
  y ^^^ (y >>> 18)

def next (t : Twister) : UInt32 × Twister :=
  let t := if t.used ≥ 624 then ⟨twist t.words, 0⟩ else t
  (temper (word t.words t.used), { t with used := t.used + 1 })

/-- Draws nine bits until they make a byte, at most `tries` times. -/
def byteWithin : (tries : Nat) → Twister → UInt8 × Twister
  | 0, t => (0, t)
  | tries + 1, t =>
    let (y, t) := t.next
    let bits := y >>> 23
    if bits < 256 then (bits.toUInt8, t) else byteWithin tries t

/-- Half of all draws make a byte; a run of draws that long without one does not come up. -/
def byte (t : Twister) : UInt8 × Twister :=
  byteWithin 4096 t

end Twister
end Chip8
