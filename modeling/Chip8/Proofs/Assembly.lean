import Chip8.Listing
import Chip8.Proofs.Cycle
import Chip8.Proofs.Numeral
import Mathlib.Tactic.IntervalCases

/-!
# Chip8.Proofs.Assembly

Listings back to bytes. The operands of a line are cut at the commas and told apart by the way they are
written: a register, a number, or a name. The mnemonic and the kinds of the operands tell the form
(`ofSignature?_form`), and every bit of a word is a bit of its form or of an operand that is written
(`base_add_bits`), the second register of a shift included.

`assemble?` does this for a whole listing, data words and an odd byte at the end among the lines.
`listing_lossless`: it gives back the bytes of every listing, so no two byte strings are listed alike.
-/

namespace Chip8

inductive Token where
  | register (r : Nat)
  | number (n : Nat)
  | name (cs : List Char)
  deriving DecidableEq

namespace Token

inductive Kind where
  | register
  | number
  | name (cs : List Char)
  deriving DecidableEq

def kind : Token → Kind
  | register _ => .register
  | number _ => .number
  | name cs => .name cs

def register? : List Char → Option Nat
  | ['V', d] => Text.digitValue d
  | _ => none

/-- A number begins with a decimal digit, and tells its base. -/
def number? (cs : List Char) : Option Nat :=
  if cs.head?.any Char.isDigit then Text.readMagnitude .marked cs else none

def ofChars (cs : List Char) : Token :=
  match register? cs, number? cs with
  | some r, _ => register r
  | none, some n => number n
  | none, none => name cs

/-- The tokens between the commas; blanks do not count. -/
def list (operands : String) : List Token :=
  let cs := operands.toList.filter (· ≠ ' ')
  if cs.isEmpty then [] else (cs.splitOn ',').map ofChars

end Token

namespace Operand

def kind : Operand → Token.Kind
  | vx | vy => .register
  | n | kk | nnn => .number
  | fixed name => (Token.ofChars name.toList).kind

/-- The bits that a token puts into a word at the place of an operand; none if it does not fit there. -/
def bits? : Operand → Token → Option Nat
  | vx, .register r => some (r * 0x100)
  | vy, .register r => some (r * 0x10)
  | n, .number k => if k < 0x10 then some k else none
  | kk, .number k => if k < 0x100 then some k else none
  | nnn, .number k => if k < 0x1000 then some k else none
  | fixed name, t => if t = Token.ofChars name.toList then some 0 else none
  | _, _ => none

/-- The bits of all operands together. -/
def allBits? : List Operand → List Token → Option Nat
  | [], [] => some 0
  | o :: os, t :: ts => do return (← o.bits? t) + (← allBits? os ts)
  | _, _ => none

end Operand

namespace Form

/-- The word of a form whose operands are all zero. -/
def base : Form → Nat
  | sys => 0x0000
  | cls => 0x00E0
  | ret => 0x00EE
  | jp => 0x1000
  | call => 0x2000
  | seByte => 0x3000
  | sneByte => 0x4000
  | seReg => 0x5000
  | ldByte => 0x6000
  | addByte => 0x7000
  | ldReg => 0x8000
  | or => 0x8001
  | and => 0x8002
  | xor => 0x8003
  | addReg => 0x8004
  | sub => 0x8005
  | shr => 0x8006
  | subn => 0x8007
  | shl => 0x800E
  | sneReg => 0x9000
  | ldI => 0xA000
  | jpV0 => 0xB000
  | rnd => 0xC000
  | drw => 0xD000
  | skp => 0xE09E
  | sknp => 0xE0A1
  | ldVxDt => 0xF007
  | ldVxK => 0xF00A
  | ldDtVx => 0xF015
  | ldStVx => 0xF018
  | addIVx => 0xF01E
  | ldFVx => 0xF029
  | ldBVx => 0xF033
  | ldMemVx => 0xF055
  | ldVxMem => 0xF065

def ofSignature? (mnemonic : String) (kinds : List Token.Kind) : Option Form :=
  all.find? fun f => f.mnemonic = mnemonic ∧ f.operands.map Operand.kind = kinds

theorem ofSignature?_form (f : Form) :
    ofSignature? f.mnemonic (f.operands.map Operand.kind) = some f := by
  cases f <;> decide

end Form

namespace Instruction

variable {w : Nat} {ins : Instruction}

def token (ins : Instruction) : Operand → Token
  | .vx => .register ins.x
  | .vy => .register ins.y
  | .n => .number ins.n
  | .kk => .number ins.kk.toNat
  | .nnn => .number ins.nnn
  | .fixed name => .ofChars name.toList

def bits (ins : Instruction) : Operand → Nat
  | .vx => ins.x * 0x100
  | .vy => ins.y * 0x10
  | .n => ins.n
  | .kk => ins.kk.toNat
  | .nnn => ins.nnn
  | .fixed _ => 0

theorem kind_token (ins : Instruction) (o : Operand) : (ins.token o).kind = o.kind := by
  cases o <;> rfl

theorem bits?_token (ins : Instruction) (o : Operand) :
    o.bits? (ins.token o) = some (ins.bits o) := by
  cases o with
  | vx | vy => rfl
  | n => exact if_pos (Nat.mod_lt _ (by decide))
  | kk => exact if_pos ins.kk.toNat_lt
  | nnn => exact if_pos (Nat.mod_lt _ (by decide))
  | fixed name => exact if_pos rfl

theorem allBits?_map_token (ins : Instruction) (os : List Operand) :
    Operand.allBits? os (os.map ins.token) = some (os.map ins.bits).sum := by
  induction os with
  | nil => rfl
  | cons o os ih =>
    simp only [List.map_cons, Operand.allBits?, bits?_token, ih, List.sum_cons]
    rfl

theorem base_of_ofArithmetic {k : Nat} {f : Form} (h : Form.ofArithmetic k = some f)
    (ins : Instruction) : f.base = 0x8000 + k ∧
      (f.operands.map ins.bits).sum = ins.x * 0x100 + ins.y * 0x10 := by
  simp only [Form.ofArithmetic] at h
  split at h <;> cases h <;> simp [Form.base, Form.operands, bits]

theorem base_of_ofKeyTest {k : Nat} {f : Form} (h : Form.ofKeyTest k = some f)
    (ins : Instruction) :
    f.base = 0xE000 + k ∧ (f.operands.map ins.bits).sum = ins.x * 0x100 := by
  simp only [Form.ofKeyTest] at h
  split at h <;> cases h <;> simp [Form.base, Form.operands, bits]

/-- The other operand of a transfer is a name, which has no bits. -/
theorem base_of_ofTransfer {k : Nat} {f : Form} (h : Form.ofTransfer k = some f)
    (ins : Instruction) :
    f.base = 0xF000 + k ∧ (f.operands.map ins.bits).sum = ins.x * 0x100 := by
  simp only [Form.ofTransfer] at h
  split at h <;> cases h <;> simp [Form.base, Form.operands, bits]

/-- **A word is made of its form and its operands.** No bit of it is in neither. -/
theorem base_add_bits (h : ofWord? w = some ins) :
    ins.form.base + (ins.form.operands.map ins.bits).sum = w := by
  have hform := form_of_ofWord h
  obtain rfl := opcode_of_ofWord h
  have hx : (ins.x : Nat) = ins.opcode / 0x100 % 0x10 := rfl
  have hy : (ins.y : Nat) = ins.opcode / 0x10 % 0x10 := rfl
  have hn : ins.n = ins.opcode % 0x10 := rfl
  have hkk : ins.kk.toNat = ins.opcode % 0x100 := UInt8.toNat_ofNat'
  have hnnn : ins.nnn = ins.opcode % 0x1000 := rfl
  generalize ins.form = form at hform
  simp only [Form.ofWord?] at hform
  split at hform
  case h_9 =>
    obtain ⟨hbase, hbits⟩ := base_of_ofArithmetic hform ins
    omega
  case h_15 =>
    obtain ⟨hbase, hbits⟩ := base_of_ofKeyTest hform ins
    omega
  case h_16 =>
    obtain ⟨hbase, hbits⟩ := base_of_ofTransfer hform ins
    omega
  all_goals
    -- each of the other families is one form, or a form under a condition
    repeat' split at hform
    all_goals cases hform
    all_goals
      simp only [Form.base, Form.operands, List.map_cons, List.map_nil, List.sum_cons,
        List.sum_nil, bits]
      omega

end Instruction

/-! ## Operands read back -/

namespace Token

/-- A text without the marks that stand between operands. -/
def Unbroken (cs : List Char) : Prop :=
  cs ≠ [] ∧ ∀ c ∈ cs, c ≠ ',' ∧ c ≠ ' '

-- by the characters of the text, not by all that there are
instance (cs : List Char) : Decidable (Unbroken cs) :=
  haveI := List.decidableBAll (fun c => c ≠ ',' ∧ c ≠ ' ') cs
  instDecidableAnd

theorem unbroken_append_hex {s : String} (h : Unbroken s.toList) (width n : Nat) :
    Unbroken (s ++ Text.hex width n).toList := by
  rw [Text.toList_append_hex]
  refine ⟨List.append_ne_nil_of_left_ne_nil h.1 _, fun c hc => ?_⟩
  obtain hc | hc := List.mem_append.mp hc
  · exact h.2 c hc
  · obtain ⟨d, hd, rfl⟩ := Text.mem_hexChars hc
    have hall : ∀ d : Fin 16, Text.hexDigit d.val ≠ ',' ∧ Text.hexDigit d.val ≠ ' ' := by decide
    exact hall ⟨d, hd⟩

theorem ofChars_register {r : Nat} (h : r < 16) :
    ofChars ("V" ++ Text.hex 1 r).toList = .register r := by
  have hdigit : Text.hexChars 1 r = [Text.hexDigit r] := by
    rw [Text.hexChars_ofNat, Text.hexDigits, if_pos h]
    rfl
  have hread : register? ['V', Text.hexDigit r] = some r := Text.digitValue_hexDigit h
  have hchars : "V".toList ++ [Text.hexDigit r] = ['V', Text.hexDigit r] := rfl
  rw [Text.toList_append_hex, hdigit, hchars, ofChars, hread]

theorem ofChars_hex (width n : Nat) : ofChars ("0x" ++ Text.hex width n).toList = .number n := by
  have hread : number? ('0' :: 'x' :: Text.hexChars width n) =
      Text.readMarked 16 (Text.hexChars width n) := rfl
  have hno : register? ('0' :: 'x' :: Text.hexChars width n) = none := rfl
  have hchars : "0x".toList ++ Text.hexChars width n = '0' :: 'x' :: Text.hexChars width n := rfl
  rw [Text.toList_append_hex, hchars, ofChars, hno, hread, Text.readMarked_hexChars]

/-- Heights of sprites are the only decimal numbers in a listing. -/
theorem ofChars_decimal {n : Nat} (h : n < 16) : ofChars (toString n).toList = .number n := by
  have hall : ∀ n : Fin 16, register? (toString n.val).toList = none ∧
      (toString n.val).toList.head?.any Char.isDigit = true := by decide
  obtain ⟨hno, hdigit⟩ := hall ⟨n, h⟩
  have hmark : Text.readMagnitude .marked (toString n).toList =
      Text.readUnmarked (toString n).toList := by
    interval_cases n <;> rfl
  have hread : number? (toString n).toList = some n := by
    rw [number?, if_pos hdigit, hmark, Text.readUnmarked_decimal h]
  rw [ofChars, hno, hread]

theorem unbroken_decimal {n : Nat} (h : n < 16) : Unbroken (toString n).toList := by
  have hall : ∀ n : Fin 16, Unbroken (toString n.val).toList := by decide
  exact hall ⟨n, h⟩

theorem filter_of_unbroken {cs : List Char} (h : Unbroken cs) : cs.filter (· ≠ ' ') = cs := by
  refine List.filter_eq_self.mpr fun c hc => ?_
  exact decide_eq_true (h.2 c hc).2

/-- Blanks gone, only the commas stand between the operands. -/
theorem filter_intercalate {texts : List String} (h : ∀ s ∈ texts, Unbroken s.toList) :
    (", ".intercalate texts).toList.filter (· ≠ ' ') =
      [','].intercalate (texts.map String.toList) := by
  induction texts with
  | nil => rfl
  | cons s texts ih =>
    have hs := filter_of_unbroken (h s List.mem_cons_self)
    have ih := ih fun t ht => h t (List.mem_cons_of_mem s ht)
    cases texts with
    | nil => simpa using hs
    | cons t texts =>
      rw [String.intercalate_cons_cons, String.toList_append, String.toList_append,
        List.filter_append, List.filter_append, hs, ih]
      simp only [List.map_cons, List.intercalate_cons_cons]
      rfl

/-- Operands are told apart again. -/
theorem list_intercalate {texts : List String} (h : ∀ s ∈ texts, Unbroken s.toList) :
    list (", ".intercalate texts) = texts.map (ofChars ·.toList) := by
  cases texts with
  | nil => rfl
  | cons s texts =>
    have hcomma : ∀ l ∈ (s :: texts).map String.toList, ',' ∉ l := by
      simp only [List.forall_mem_map]
      intro t ht hmem
      exact ((h t ht).2 ',' hmem).1 rfl
    have hsplit := List.splitOn_intercalate ',' hcomma (by simp)
    have hne : ([','].intercalate ((s :: texts).map String.toList)).isEmpty = false := by
      rw [Bool.eq_false_iff, Ne, List.isEmpty_iff]
      intro hnil
      -- otherwise the first text would be cut off as an empty one
      rw [hnil] at hsplit
      exact (h s List.mem_cons_self).1 (List.cons.inj hsplit).1.symm
    simp only [list, filter_intercalate h, hne]
    rw [if_neg Bool.false_ne_true, hsplit, List.map_map]
    rfl

end Token

/-! ## Statements and listings -/

namespace Operand

variable {ins : Instruction}

/-- The names that stand for an operand of some form. -/
theorem unbroken_of_fixed {f : Form} {name : String} (h : .fixed name ∈ f.operands) :
    Token.Unbroken name.toList := by
  have hname : name ∈ ["I", "V0", "DT", "K", "ST", "F", "B", "[I]"] := by
    cases f <;> simp_all [Form.operands]
  have hall : ∀ name ∈ ["I", "V0", "DT", "K", "ST", "F", "B", "[I]"],
      Token.Unbroken name.toList := by
    decide
  exact hall name hname

/-- The token of an operand is the one that its text is read as. -/
theorem ofChars_text (o : Operand) : Token.ofChars (o.text ins).toList = ins.token o := by
  cases o with
  | vx => exact Token.ofChars_register ins.x.isLt
  | vy => exact Token.ofChars_register ins.y.isLt
  | n => exact Token.ofChars_decimal (Nat.mod_lt _ (by decide))
  | kk => exact Token.ofChars_hex 2 ins.kk.toNat
  | nnn => exact Token.ofChars_hex 3 ins.nnn
  | fixed name => rfl

theorem unbroken_text {o : Operand} (h : o ∈ ins.form.operands) :
    Token.Unbroken (o.text ins).toList := by
  have hV : Token.Unbroken "V".toList := by decide
  have h0x : Token.Unbroken "0x".toList := by decide
  cases o with
  | vx => exact Token.unbroken_append_hex hV 1 ins.x
  | vy => exact Token.unbroken_append_hex hV 1 ins.y
  | n => exact Token.unbroken_decimal (Nat.mod_lt _ (by decide))
  | kk => exact Token.unbroken_append_hex h0x 2 ins.kk.toNat
  | nnn => exact Token.unbroken_append_hex h0x 3 ins.nnn
  | fixed name => exact unbroken_of_fixed h

end Operand

theorem Instruction.list_operandText (ins : Instruction) :
    Token.list ins.operandText = ins.form.operands.map ins.token := by
  have h : ∀ s ∈ ins.form.operands.map (Operand.text ins), Token.Unbroken s.toList := by
    simp only [List.forall_mem_map]
    exact fun o ho => Operand.unbroken_text ho
  rw [Instruction.operandText, Token.list_intercalate h, List.map_map]
  refine List.map_congr_left fun o _ => ?_
  exact o.ofChars_text

/-! ## Listings read back -/

/-- What a line says of its bytes: the mnemonic and the operands. -/
def Line.spelling (l : Line) : String × String :=
  (l.mnemonic, l.operand)

namespace Listing

/-- The two bytes of a word, high byte first. -/
def bytesOfWord (w : Nat) : List UInt8 :=
  [UInt8.ofNat (w / 0x100), UInt8.ofNat w]

def word? (mnemonic : String) (tokens : List Token) : Option Nat := do
  let form ← Form.ofSignature? mnemonic (tokens.map Token.kind)
  return form.base + (← Operand.allBits? form.operands tokens)

def number? (bound : Nat) : List Token → Option Nat
  | [.number n] => if n < bound then some n else none
  | _ => none

/-- The bytes of a statement: a byte, a word, or an instruction. -/
def statementBytes? (mnemonic operands : String) : Option (List UInt8) :=
  let tokens := Token.list operands
  if mnemonic = "DB" then (number? 0x100 tokens).map fun b => [UInt8.ofNat b]
  else if mnemonic = "DW" then (number? 0x10000 tokens).map bytesOfWord
  else (word? mnemonic tokens).map bytesOfWord

/-- The bytes of one statement after another. -/
def assemble? : List (String × String) → Option (List UInt8)
  | [] => some []
  | (mnemonic, operands) :: rest => do
    return (← statementBytes? mnemonic operands) ++ (← assemble? rest)

theorem bytesOfWord_pair (high low : UInt8) :
    bytesOfWord (high.toNat * 0x100 + low.toNat) = [high, low] := by
  have hlow := low.toNat_lt
  have hhigh : (high.toNat * 0x100 + low.toNat) / 0x100 = high.toNat := by omega
  have hmod : UInt8.ofNat (high.toNat * 0x100 + low.toNat) = low := by
    rw [← UInt8.toNat_inj, UInt8.toNat_ofNat']
    omega
  rw [bytesOfWord, hhigh, hmod, UInt8.ofNat_toNat]

theorem mnemonic_ne_data (f : Form) : f.mnemonic ≠ "DB" ∧ f.mnemonic ≠ "DW" := by
  cases f <;> decide

/-- The operand of a data line is one number. -/
theorem list_hex (width n : Nat) : Token.list ("0x" ++ Text.hex width n) = [.number n] := by
  have h : ∀ s ∈ ["0x" ++ Text.hex width n], Token.Unbroken s.toList := by
    simp only [List.forall_mem_singleton]
    exact Token.unbroken_append_hex (by decide) width n
  rw [← String.intercalate_singleton (s := ", ") (t := "0x" ++ Text.hex width n),
    Token.list_intercalate h, List.map_singleton, Token.ofChars_hex]

theorem word?_of_ofWord {w : Nat} {ins : Instruction} (h : Instruction.ofWord? w = some ins) :
    word? ins.form.mnemonic (Token.list ins.operandText) = some w := by
  have hkinds : (ins.form.operands.map ins.token).map Token.kind =
      ins.form.operands.map Operand.kind := by
    rw [List.map_map]
    exact List.map_congr_left fun o _ => ins.kind_token o
  rw [ins.list_operandText, word?, hkinds, Form.ofSignature?_form]
  simp only [Option.bind_eq_bind, Option.bind_some, ins.allBits?_map_token]
  exact congrArg some (Instruction.base_add_bits h)

theorem statementBytes?_ofByte (a : Int) (b : UInt8) :
    statementBytes? (Line.ofByte a b).mnemonic (Line.ofByte a b).operand = some [b] := by
  have htokens : Token.list (Line.ofByte a b).operand = [.number b.toNat] := list_hex 2 b.toNat
  have hnumber : number? 0x100 [.number b.toNat] = some b.toNat := if_pos b.toNat_lt
  simp only [statementBytes?, htokens, hnumber]
  simp [Line.ofByte]

theorem statementBytes?_ofPair (symbols : Symbols) (a : Int) (high low : UInt8) :
    statementBytes? (Line.ofPair symbols a high low).mnemonic
      (Line.ofPair symbols a high low).operand = some [high, low] := by
  have hbytes := bytesOfWord_pair high low
  simp only [Line.ofPair]
  generalize hw : high.toNat * 0x100 + low.toNat = w at hbytes
  have hlt : w < 0x10000 := by
    have hhigh := high.toNat_lt
    have hlow := low.toNat_lt
    omega
  cases h : Instruction.ofWord? w with
  | some ins =>
    obtain ⟨hbyte, hword⟩ := mnemonic_ne_data ins.form
    simp only [statementBytes?, hbyte, hword, if_false, word?_of_ofWord h, Option.map_some, hbytes]
  | none =>
    have hnumber : number? 0x10000 [.number w] = some w := if_pos hlt
    simp only [statementBytes?, list_hex, hnumber, Option.map_some, hbytes]
    rfl

theorem assemble?_cons {l : Line} {bytes rest : List UInt8} {more : List (String × String)}
    (hl : statementBytes? l.mnemonic l.operand = some bytes) (hmore : assemble? more = some rest) :
    assemble? (l.spelling :: more) = some (bytes ++ rest) := by
  simp only [Line.spelling, assemble?, hl, hmore]
  rfl

theorem assemble?_allLines (symbols : Symbols) (a : Int) (data : List UInt8) :
    assemble? ((allLines symbols a data).map Line.spelling) = some data := by
  induction a, data using allLines.induct with
  | case1 a => rfl
  | case2 a b => exact assemble?_cons (statementBytes?_ofByte a b) rfl
  | case3 a high low rest ih => exact assemble?_cons (statementBytes?_ofPair symbols a high low) ih

/-- Neither the symbols nor the place of the bytes show in what the lines say of them. -/
theorem spelling_allLines (symbols symbols' : Symbols) (a a' : Int) (data : List UInt8) :
    (allLines symbols a data).map Line.spelling = (allLines symbols' a' data).map Line.spelling := by
  induction a, data using allLines.induct generalizing a' with
  | case1 a => rfl
  | case2 a b => rfl
  | case3 a high low rest ih =>
    have hline : (Line.ofPair symbols a high low).spelling =
        (Line.ofPair symbols' a' high low).spelling := by
      simp only [Line.ofPair, Line.spelling]
      split <;> rfl
    simp only [allLines, List.map_cons, hline, ih (a' + 2)]

/-- **A listing loses nothing.** The bytes are read back from the mnemonics and the operands alone, so two
listings say the same exactly if they are of the same bytes. -/
theorem listing_lossless :
    (∀ symbols a data,
      assemble? ((lines symbols a data none).map Line.spelling) = some data) ∧
    ∀ symbols symbols' a a' data data',
      (lines symbols a data none).map Line.spelling =
        (lines symbols' a' data' none).map Line.spelling ↔ data = data' := by
  refine ⟨assemble?_allLines, ?_⟩
  intro symbols symbols' a a' data data'
  constructor
  · intro h
    have hbytes := congrArg assemble? h
    rw [lines, lines, assemble?_allLines, assemble?_allLines] at hbytes
    exact Option.some.inj hbytes
  · rintro rfl
    exact spelling_allLines symbols symbols' a a' data

/-- The second register of a shift has no effect, and is listed all the same. -/
example : assemble? [("SHR", "V3, V4")] = some [0x83, 0x46] := by
  rfl

end Listing
end Chip8
