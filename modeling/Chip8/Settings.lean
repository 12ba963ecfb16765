import Chip8.Text.Integer
import Chip8.Text.Quoted

/-!
# Chip8.Settings

The pace of the machine, and what a session is set up with.
-/

namespace Chip8

/-- Cycles in a second. -/
def cycleRate : Nat := 700

/-- Timer ticks in a second. -/
def timerRate : Nat := 60

structure Settings where
  /-- Without a seed the random sequence is not fixed. -/
  seed : Option Int := none
  /-- Note every instruction before it is carried out. -/
  trace : Bool := false
  deriving DecidableEq, Repr

/-- A seed in the environment that is no integer. -/
structure SeedError where
  text : String
  deriving DecidableEq, Repr

def SeedError.message (e : SeedError) : String :=
  "CHIP8_SEED must be an integer, got " ++ Text.quoted e.text

namespace Settings

/-- Whole cycles between two timer ticks. -/
def cyclesPerTick : Nat :=
  cycleRate / timerRate

/-- An unset or empty seed is no seed. -/
def readSeed : Option String → Except SeedError (Option Int)
  | none => .ok none
  | some text =>
    if text.isEmpty then .ok none
    else
      match Text.readInteger .marked text with
      | some n => .ok (some n)
      | none => .error ⟨text⟩

/-- Three words switch tracing on, in either case. -/
def readTrace (text : Option String) : Bool :=
  ["1", "true", "yes"].contains (text.getD "").toLower

/-- Settings from the texts of `CHIP8_SEED` and `CHIP8_TRACE`. -/
def ofEnvironment (seed trace : Option String) : Except SeedError Settings := do
  let seed ← readSeed seed
  return { seed, trace := readTrace trace }

end Settings
end Chip8
