import Chip8.Operand

/-!
# Chip8.Listing

Bytes as lines of assembly text. Every two bytes are a line: an instruction, or a data word if they
have no form. An odd byte at the end is a line of its own.
-/

namespace Chip8

/-- Names of addresses, the latest last. -/
abbrev Symbols := List (Int × String)

/-- Gives an address a name, from now on its latest. -/
def Symbols.add (symbols : Symbols) (a : Int) (name : String) : Symbols :=
  symbols ++ [(a, name)]

/-- The latest name of an address, or nothing. -/
def Symbols.name (symbols : Symbols) (a : Int) : String :=
  (symbols.reverse.lookup a).getD ""

structure Line where
  address : Int
  opcode : Int
  /-- Data has no form. -/
  form : Option Form
  mnemonic : String
  operand : String
  bytes : List UInt8
  comment : String := ""
  deriving DecidableEq, Repr

namespace Line

def size (l : Line) : Nat :=
  l.bytes.length

def isData (l : Line) : Bool :=
  l.form.isNone

def addressText (l : Line) : String :=
  "$" ++ Text.hex 3 l.address

def opcodeText (l : Line) : String :=
  "$" ++ Text.hex 4 l.opcode

def byteTexts (l : Line) : List String :=
  l.bytes.map fun b => "$" ++ Text.hexByte b

/-- Mnemonic and operands. -/
def statement (l : Line) : String :=
  if l.operand.isEmpty then l.mnemonic else l.mnemonic ++ " " ++ l.operand

/-- Address, bytes, statement and comment in columns. -/
def text (l : Line) : String :=
  let front := l.addressText ++ ": " ++ Text.padRight 5 (Text.hexBytes l.bytes) ++ "  "
  if l.comment.isEmpty then front ++ l.statement
  else front ++ Text.padRight 16 l.statement ++ " ; " ++ l.comment

/-- The line of a byte that has no partner. -/
def ofByte (a : Int) (b : UInt8) : Line where
  address := a
  opcode := b.toNat
  form := none
  mnemonic := "DB"
  operand := Operand.byteText b
  bytes := [b]
  comment := "incomplete instruction"

/-- The line of two bytes, high byte first. -/
def ofPair (symbols : Symbols) (a : Int) (high low : UInt8) : Line :=
  let w := high.toNat * 0x100 + low.toNat
  match Instruction.ofWord? w with
  | some ins =>
    { address := a
      opcode := w
      form := some ins.form
      mnemonic := ins.form.mnemonic
      operand := ins.operandText
      bytes := [high, low]
      comment := if ins.form.pointsTo then symbols.name ins.nnn else "" }
  | none =>
    { address := a
      opcode := w
      form := none
      mnemonic := "DW"
      operand := "0x" ++ Text.hex 4 w
      bytes := [high, low]
      comment := "unknown opcode" }

section OfPair

variable (symbols : Symbols) (a : Int) (high low : UInt8)

@[simp] theorem ofPair_address : (ofPair symbols a high low).address = a := by
  simp only [ofPair]
  split <;> rfl

@[simp] theorem ofPair_bytes : (ofPair symbols a high low).bytes = [high, low] := by
  simp only [ofPair]
  split <;> rfl

@[simp] theorem ofPair_opcode :
    (ofPair symbols a high low).opcode = (high.toNat * 0x100 + low.toNat : Nat) := by
  simp only [ofPair]
  split <;> rfl

@[simp] theorem ofPair_form :
    (ofPair symbols a high low).form = Form.ofWord? (high.toNat * 0x100 + low.toNat) := by
  simp only [ofPair, Instruction.ofWord?]
  cases Form.ofWord? (high.toNat * 0x100 + low.toNat) <;> rfl

end OfPair

end Line

namespace Listing

/-- An offset that is not before the end of the bytes. -/
structure OffsetError where
  offset : Nat
  length : Nat
  deriving DecidableEq, Repr

def OffsetError.message (e : OffsetError) : String :=
  "Offset " ++ toString e.offset ++ " beyond data length " ++ toString e.length

/-- The first line of bytes that lie at `a`. -/
def firstLine? (symbols : Symbols) (a : Int) : List UInt8 → Option Line
  | [] => none
  | [b] => some (Line.ofByte a b)
  | high :: low :: _ => some (Line.ofPair symbols a high low)

/-- The line of the bytes at an offset, labelled `a`. -/
def lineAt (symbols : Symbols) (a : Int) (data : List UInt8) (offset : Nat) :
    Except OffsetError Line :=
  match firstLine? symbols a (data.drop offset) with
  | some line => .ok line
  | none => .error ⟨offset, data.length⟩

/-- All lines of bytes that lie at `a`. -/
def allLines (symbols : Symbols) (a : Int) : List UInt8 → List Line
  | [] => []
  | [b] => [Line.ofByte a b]
  | high :: low :: rest => Line.ofPair symbols a high low :: allLines symbols (a + 2) rest

/-- The lines of bytes that lie at `a`, at most `count` of them. -/
def lines (symbols : Symbols) (a : Int) (data : List UInt8) : Option Int → List Line
  | none => allLines symbols a data
  | some count => (allLines symbols a data).take count.toNat

def text (lines : List Line) : String :=
  "\n".intercalate (lines.map Line.text)

end Listing
end Chip8
