import Chip8.Text.Digit

/-!
# Chip8.Text.Integer

Integer literals. Blanks may stand around a literal and one sign in front of it; a single underscore
may stand between digits, and after a mark of the base.
-/

namespace Chip8
namespace Text

/-- How the base of a literal is found. -/
inductive Radix where
  | decimal
  /-- Sixteen; the mark `0x` may be left out. -/
  | hexadecimal
  /-- The literal says: `0x`, `0o`, `0b`, or ten without a mark. -/
  | marked
  deriving DecidableEq

/-- A decimal literal has at most this many digits. -/
def maxDecimalDigits : Nat := 4300

/-- Reads digits in `base` onto `acc`, each with at most one underscore in front. -/
def readDigits (base : Nat) : (acc : Nat) → List Char → Option Nat
  | acc, [] => some acc
  | acc, '_' :: c :: rest => digit acc c rest
  | acc, c :: rest => digit acc c rest
where
  digit (acc : Nat) (c : Char) (rest : List Char) : Option Nat :=
    match digitValue c with
    | some d => if d < base then readDigits base (acc * base + d) rest else none
    | none => none

/-- The digits behind a mark; one underscore may follow the mark. -/
def readMarked (base : Nat) (digits : List Char) : Option Nat :=
  if digits.isEmpty then none else readDigits base 0 digits

/-- Digits without a mark: no underscore comes first. -/
def readPlain (base : Nat) (digits : List Char) : Option Nat :=
  if digits.head? = some '_' then none else readMarked base digits

def readDecimal (digits : List Char) : Option Nat :=
  if (digits.filter (· ≠ '_')).length ≤ maxDecimalDigits then readPlain 10 digits else none

/-- A decimal literal whose base is left to be told has no zero in front, unless it is all zeros. -/
def readUnmarked (digits : List Char) : Option Nat :=
  match readDecimal digits with
  | some n => if (digits.head?.bind decimalValue) = some 0 ∧ n ≠ 0 then none else some n
  | none => none

/-- The base that a mark letter stands for. -/
def markedBase (c : Char) : Option Nat :=
  if c = 'x' ∨ c = 'X' then some 16
  else if c = 'o' ∨ c = 'O' then some 8
  else if c = 'b' ∨ c = 'B' then some 2
  else none

/-- A zero of any script begins a mark. -/
def isZero (c : Char) : Bool :=
  decimalValue c = some 0

def readMagnitude (radix : Radix) (digits : List Char) : Option Nat :=
  match radix, digits with
  | .decimal, _ => readDecimal digits
  | .hexadecimal, z :: m :: rest =>
    if isZero z ∧ markedBase m = some 16 then readMarked 16 rest else readPlain 16 digits
  | .hexadecimal, _ => readPlain 16 digits
  | .marked, z :: m :: rest =>
    match isZero z, markedBase m with
    | true, some base => readMarked base rest
    | _, _ => readUnmarked digits
  | .marked, _ => readUnmarked digits

/-- The text without the blanks around it. -/
def trimBlanks (cs : List Char) : List Char :=
  ((cs.dropWhile isBlank).reverse.dropWhile isBlank).reverse

def readInteger (radix : Radix) (s : String) : Option Int :=
  match trimBlanks s.toList with
  | '-' :: digits => (readMagnitude radix digits).map fun n => -(n : Int)
  | '+' :: digits => (readMagnitude radix digits).map fun n => (n : Int)
  | digits => (readMagnitude radix digits).map fun n => (n : Int)

end Text
end Chip8
