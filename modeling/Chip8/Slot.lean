/-!
# Chip8.Slot

The slots of a row by number: from the front, or from the back if the number is negative. A number
that names no slot is a defect, and so is a number that is no byte; a machine within its bounds
runs into neither.
-/

namespace Chip8

/-- What only a machine out of its bounds runs into. -/
inductive Defect where
  | noSlotToRead
  | noSlotToWrite
  | noRegister
  | noByte
  /-- A slot number of more than 64 bits. -/
  | noSlotNumber
  deriving DecidableEq, Repr

def Defect.message : Defect → String
  | noSlotToRead => "list index out of range"
  | noSlotToWrite => "list assignment index out of range"
  | noRegister => "bytearray index out of range"
  | noByte => "byte must be in range(0, 256)"
  | noSlotNumber => "cannot fit 'int' into an index-sized integer"

/-- The slot with number `k` in a row of `n`, where -1 is the last one. A number that no slot has is
the defect `outside`. -/
def slot (n : Nat) (outside : Defect) (k : Int) : Except Defect (Fin n) :=
  if k < -0x8000000000000000 ∨ 0x8000000000000000 ≤ k then .error .noSlotNumber
  else if h : 0 ≤ k ∧ k < n then .ok ⟨k.toNat, by omega⟩
  else if h : -n ≤ k ∧ k < 0 then .ok ⟨(k + n).toNat, by omega⟩
  else .error outside

/-! ## Rows of sixteen -/

/-- An index is a place of the row by its type. -/
instance getElemFin {α : Type} {n : Nat} : GetElem (Vector α n) (Fin n) α fun _ _ => True where
  getElem row k _ := row.get k

@[simp] theorem getElem_val {α : Type} {n : Nat} (row : Vector α n) (k : Fin n) :
    row[k] = row[k.val] := rfl

/-- What the numerals of `Fin 16` rest on. -/
instance neZeroSixteen : @NeZero Nat Zero.ofOfNat0 16 := ⟨by decide⟩

theorem lt_sixteen (k : Fin 16) : k.val < 16 :=
  k.isLt

/-- The byte of a number. -/
def byteOf (n : Int) : Except Defect UInt8 :=
  if 0 ≤ n ∧ n < 256 then .ok (UInt8.ofNat n.toNat) else .error .noByte

end Chip8
