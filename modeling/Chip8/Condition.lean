import Chip8.Machine

/-!
# Chip8.Condition

Comparisons of a register with a number, as a debugger watches them.
-/

namespace Chip8

inductive Register where
  | v (r : Fin 16)
  | i
  | pc
  | sp
  | delay
  | sound
  deriving DecidableEq, Repr

namespace Register

def name : Register → String
  | v r => "v" ++ (Text.hex 1 r.val).toLower
  | i => "i"
  | pc => "pc"
  | sp => "sp"
  | delay => "delay_timer"
  | sound => "sound_timer"

/-- All registers in the order of their names. -/
def all : List Register :=
  [delay, i, pc, sound, sp] ++ (List.finRange 16).map v

/-- The register of a name in either case. -/
def ofName? (s : String) : Option Register :=
  all.find? fun r => r.name = s.toLower

def read (m : Machine) : Register → Int
  | v r => m.v[r].toNat
  | i => m.i
  | pc => m.pc
  | sp => m.sp
  | delay => m.delay
  | sound => m.sound

end Register

inductive Relation where
  | eq
  | ne
  | lt
  | le
  | gt
  | ge
  /-- A bit is set on both sides. -/
  | sharesBit
  deriving DecidableEq, Repr

namespace Relation

def symbol : Relation → String
  | eq => "=="
  | ne => "!="
  | lt => "<"
  | le => "<="
  | gt => ">"
  | ge => ">="
  | sharesBit => "&"

/-- All relations in the order of their symbols. -/
def all : List Relation :=
  [ne, sharesBit, lt, le, eq, gt, ge]

def ofSymbol? (s : String) : Option Relation :=
  all.find? fun r => r.symbol = s

/-- Whether two integers share a bit in two's complement. -/
def testBits : Int → Int → Bool
  | .ofNat a, .ofNat b => a &&& b != 0
  | .ofNat a, .negSucc b => a &&& b != a
  | .negSucc a, .ofNat b => a &&& b != b
  | .negSucc _, .negSucc _ => true

def holds (r : Relation) (a b : Int) : Bool :=
  match r with
  | eq => a = b
  | ne => a ≠ b
  | lt => a < b
  | le => a ≤ b
  | gt => b < a
  | ge => b ≤ a
  | sharesBit => testBits a b

end Relation

structure Condition where
  register : Register
  relation : Relation
  value : Int
  description : String
  deriving DecidableEq, Repr

inductive ConditionError where
  | register (name : String)
  | relation (symbol : String)
  deriving DecidableEq, Repr

def ConditionError.message : ConditionError → String
  | register name =>
    "Unknown register '" ++ name ++ "'. Valid registers: " ++
      ", ".intercalate (Register.all.map Register.name)
  | relation symbol =>
    "Unknown operator '" ++ symbol ++ "'. Valid operators: " ++
      ", ".intercalate (Relation.all.map Relation.symbol)

namespace Condition

/-- Reads a condition from its texts. Without a description it is described by them. -/
def ofText (register relation : String) (value : Int) (description : String) :
    Except ConditionError Condition :=
  match Register.ofName? register, Relation.ofSymbol? relation with
  | some r, some rel =>
    let text := register ++ " " ++ relation ++ " " ++ toString value
    .ok ⟨r, rel, value, if description.isEmpty then text else description⟩
  | none, _ => .error (.register register)
  | some _, none => .error (.relation relation)

def holds (c : Condition) (m : Machine) : Bool :=
  c.relation.holds (c.register.read m) c.value

def summary (c : Condition) : String :=
  "RegisterCondition('" ++ c.register.name ++ "', '" ++ c.relation.symbol ++ "', " ++
    toString c.value ++ ")"

end Condition
end Chip8
