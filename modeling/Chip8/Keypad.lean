import Chip8.Slot

/-!
# Chip8.Keypad

The sixteen keys, held or not, and the two ways to name a key.
-/

namespace Chip8

/-- `true` while a key is held. -/
abbrev Keypad := Vector Bool 16

/-- A key as it is named from outside: by its number or by the host key that stands for it. -/
inductive Key where
  | number (n : Int)
  | host (name : String)
  deriving DecidableEq, Repr

inductive KeyError where
  | outOfRange (n : Int)
  | unknown (name : String)
  deriving DecidableEq, Repr

namespace Key

/-- The host keys that stand for the keypad, row by row. -/
def hostKeys : List (Char × Fin 16) :=
  [('1', 0x1), ('2', 0x2), ('3', 0x3), ('4', 0xC),
    ('Q', 0x4), ('W', 0x5), ('E', 0x6), ('R', 0xD),
    ('A', 0x7), ('S', 0x8), ('D', 0x9), ('F', 0xE),
    ('Z', 0xA), ('X', 0x0), ('C', 0xB), ('V', 0xF)]

/-- The capital of a host key: beside the ASCII letters only the long s has a capital among them. -/
def capital (c : Char) : Char :=
  if c = 'ſ' then 'S' else c.toUpper

def ofHost? (name : String) : Option (Fin 16) :=
  match name.toList with
  | [c] => hostKeys.lookup (capital c)
  | _ => none

/-- The keypad key that a name stands for. -/
def resolve : Key → Except KeyError (Fin 16)
  | number n =>
    if h : 0 ≤ n ∧ n < 16 then .ok ⟨n.toNat, by omega⟩ else .error (.outOfRange n)
  | host name =>
    match ofHost? name with
    | some k => .ok k
    | none => .error (.unknown name)

end Key

def KeyError.message : KeyError → String
  | outOfRange n => "Keypad key must be 0-15, got " ++ toString n
  | unknown name =>
    "Unknown key '" ++ name ++ "'. Valid keys: " ++
      ", ".intercalate (Key.hostKeys.map fun (c, _) => c.toString)

namespace Keypad

def released : Keypad :=
  Vector.replicate 16 false

def hold (pad : Keypad) (k : Fin 16) (held : Bool) : Keypad :=
  pad.set k held (lt_sixteen k)

/-- The held keys in ascending order. -/
def held (pad : Keypad) : List (Fin 16) :=
  (List.finRange 16).filter fun k => pad[k]

/-- The lowest held key. -/
def first? (pad : Keypad) : Option (Fin 16) :=
  (List.finRange 16).find? fun k => pad[k]

end Keypad
end Chip8
