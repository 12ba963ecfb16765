import Chip8.Proofs.FetchedWord
import Chip8.Proofs.PrintedText
import Chip8.Proofs.Tiling

/-!
# Chip8.Proofs.Columns

The first columns of the lines of a listing, read back from the text. A label stands behind a dollar sign, and
bytes behind a colon and a blank, of two digits each; the column is at an end where two blanks follow.

* `Columns.read?`  : the label and the bytes of a line.
* `Columns.ReadAs` : lines whose labels go up by a step, and whose bytes are data.

`readAs_lines`: a listing reads as the bytes that it was made of, however many lines were asked for. Its lines
have no control characters in them (`visible_lines`).
-/

namespace Chip8

structure Columns where
  label : Int
  bytes : List UInt8
  deriving DecidableEq, Repr

namespace Columns

variable {a step : Int} {data bs : List UInt8} {ls : List (List Char)} {l : List Char}

def byte? (high low : Char) : Option UInt8 := do
  return .ofNat (16 * (← Text.digitValue high) + (← Text.digitValue low))

/-- Bytes of two digits, with one character between neighbours, up to what is no byte. -/
def readBytes : List Char → List UInt8
  | high :: low :: _ :: rest =>
    match byte? high low with
    | some b => b :: readBytes rest
    | none => []
  | [high, low] => (byte? high low).toList
  | _ => []

/-- A label behind a dollar sign, and bytes behind a colon and a blank. -/
def read? : List Char → Option Columns
  | '$' :: cs => do
    let label ← Text.readMarked 16 (cs.takeWhile (· ≠ ':'))
    return ⟨label, readBytes ((cs.dropWhile (· ≠ ':')).drop 2)⟩
  | _ => none

def ReadAs (ls : List (List Char)) (start step : Int) (data : List UInt8) : Prop :=
  ∃ rows : List Columns, ls.mapM read? = some rows ∧
    rows.map label = (List.range rows.length).map (fun i : Nat => start + step * i) ∧
    rows.flatMap bytes = data

/-! ## Bytes -/

theorem toList_hexByte (b : UInt8) :
    (Text.hexByte b).toList = [Text.hexDigit (b.toNat / 16), Text.hexDigit (b.toNat % 16)] := by
  have hb := b.toNat_lt
  rw [Text.hexByte, Text.hex, String.toList_ofList, Text.hexChars_ofNat, Text.zeroPad, Text.hexDigits]
  by_cases h : b.toNat < 16
  · rw [if_pos h, Nat.div_eq_of_lt h, Nat.mod_eq_of_lt h]
    rfl
  · rw [if_neg h, Text.hexDigits, if_pos (by omega)]
    rfl

theorem byte?_hexDigit (b : UInt8) :
    byte? (Text.hexDigit (b.toNat / 16)) (Text.hexDigit (b.toNat % 16)) = some b := by
  have hb := b.toNat_lt
  have hsum : 16 * (b.toNat / 16) + b.toNat % 16 = b.toNat := Nat.div_add_mod _ _
  simp only [byte?, Text.digitValue_hexDigit (show b.toNat / 16 < 16 by omega),
    Text.digitValue_hexDigit (show b.toNat % 16 < 16 by omega)]
  show some (UInt8.ofNat (16 * (b.toNat / 16) + b.toNat % 16)) = some b
  rw [hsum, UInt8.ofNat_toNat]

/-- A column of bytes is at an end, or there are two blanks behind it. -/
def ColumnEnd (cs : List Char) : Prop :=
  cs = [] ∨ ∃ rest, cs = ' ' :: ' ' :: rest

theorem readBytes_blank (cs : List Char) : readBytes (' ' :: cs) = [] := by
  have hnone (low : Char) : byte? ' ' low = none := rfl
  cases cs with
  | nil => rfl
  | cons low cs =>
    cases cs with
    | nil => rw [readBytes, hnone]; rfl
    | cons sep rest => rw [readBytes, hnone]

theorem readBytes_hexByte (b : UInt8) {cs : List Char} (h : ColumnEnd cs) :
    readBytes ((Text.hexByte b).toList ++ cs) = [b] := by
  rw [toList_hexByte]
  rcases h with rfl | ⟨rest, rfl⟩
  · simp only [List.append_nil, readBytes, byte?_hexDigit]
    rfl
  · simp only [List.cons_append, List.nil_append, readBytes, byte?_hexDigit, readBytes_blank]

theorem readBytes_hexBytes (hbs : bs ≠ []) {cs : List Char} (h : ColumnEnd cs) :
    readBytes ((Text.hexBytes bs).toList ++ cs) = bs := by
  unfold Text.hexBytes
  induction bs with
  | nil => exact absurd rfl hbs
  | cons b bs ih =>
    cases bs with
    | nil =>
      rw [List.map_cons, List.map_nil, String.intercalate_singleton]
      exact readBytes_hexByte b h
    | cons b' bs =>
      have hrest := ih (List.cons_ne_nil b' bs)
      rw [List.map_cons] at hrest
      rw [List.map_cons, List.map_cons, String.intercalate_cons_cons, String.toList_append,
        String.toList_append, toList_hexByte]
      simp only [List.append_assoc, List.cons_append, List.nil_append]
      show readBytes (_ :: _ :: ' ' :: (_ ++ cs)) = _
      rw [readBytes, byte?_hexDigit]
      exact congrArg (b :: ·) hrest

/-! ## Lines -/

theorem read?_of_columns (n : Nat) (hbs : bs ≠ []) {cs : List Char} (h : ColumnEnd cs) :
    read? ('$' :: (Text.hexChars 3 n ++ ':' :: ' ' :: ((Text.hexBytes bs).toList ++ cs))) =
      some ⟨n, bs⟩ := by
  have hcolon : ∀ c ∈ Text.hexChars 3 n, decide (c ≠ ':') = true := by
    intro c hc
    obtain ⟨d, hd, rfl⟩ := Text.mem_hexChars hc
    have hall : ∀ d : Fin 16, decide (Text.hexDigit d.val ≠ ':') = true := by decide
    exact hall ⟨d, hd⟩
  have htake (rest : List Char) :
      (Text.hexChars 3 n ++ ':' :: rest).takeWhile (· ≠ ':') = Text.hexChars 3 n := by
    rw [List.takeWhile_append_of_pos hcolon, List.takeWhile_cons_of_neg (by simp), List.append_nil]
  have hdrop (rest : List Char) :
      (Text.hexChars 3 n ++ ':' :: rest).dropWhile (· ≠ ':') = ':' :: rest := by
    rw [List.dropWhile_append_of_pos hcolon, List.dropWhile_cons_of_neg (by simp)]
  simp only [read?, htake, hdrop, Text.readMarked_hexChars, List.drop_succ_cons, List.drop_zero,
    readBytes_hexBytes hbs h]
  rfl

theorem read?_text {line : Line} {n : Nat} (ha : line.address = n) (hbs : line.bytes ≠ []) :
    read? line.text.toList = some ⟨line.address, line.bytes⟩ := by
  obtain ⟨rest, htext⟩ := line.text_eq
  -- the blanks that fill the column and the two behind it
  have hend : ∃ pad : List Char, (Text.padRight 5 (Text.hexBytes line.bytes)).toList ++ ("  ".toList ++ rest.toList) =
      (Text.hexBytes line.bytes).toList ++ pad ∧ ColumnEnd pad := by
    refine ⟨List.replicate (5 - (Text.hexBytes line.bytes).length) ' ' ++ (' ' :: ' ' :: rest.toList), ?_, ?_⟩
    · rw [Text.padRight, String.toList_append, String.toList_ofList, List.append_assoc]
      rfl
    · cases 5 - (Text.hexBytes line.bytes).length with
      | zero => exact .inr ⟨_, rfl⟩
      | succ k =>
        cases k with
        | zero => exact .inr ⟨_, rfl⟩
        | succ k => exact .inr ⟨_, rfl⟩
  obtain ⟨pad, hpad, hend⟩ := hend
  have hread := read?_of_columns n hbs hend
  rw [← hpad] at hread
  rw [htext, Line.addressText, ha, ← hread]
  simp only [String.toList_append, Text.hex, String.toList_ofList, List.append_assoc]
  rfl

theorem readAs_nil (a step : Int) : ReadAs [] a step [] :=
  ⟨[], rfl, rfl, rfl⟩

theorem readAs_cons (hl : read? l = some ⟨a, bs⟩) (h : ReadAs ls (a + step) step data) :
    ReadAs (l :: ls) a step (bs ++ data) := by
  obtain ⟨rows, hrows, hlabels, rfl⟩ := h
  refine ⟨⟨a, bs⟩ :: rows, ?_, ?_, rfl⟩
  · rw [List.mapM_cons, hl, hrows]
    rfl
  · rw [List.map_cons, hlabels, List.length_cons, List.range_succ_eq_map, List.map_cons, List.map_map]
    refine congrArg₂ List.cons ?_ (List.map_congr_left fun i _ => ?_)
    · simp
    · simp only [Function.comp_apply]
      push_cast
      rw [Int.mul_add, Int.mul_one]
      omega

end Columns

namespace Listing

open Columns (ReadAs)

variable {a : Int} {data : List UInt8} {count : Option Int}

/-- The bytes that a listing shows: all of them, or those of as many lines as were asked for. -/
def listed (data : List UInt8) : Option Int → List UInt8
  | none => data
  | some c => data.take (min data.length (2 * max c 0).toNat)

theorem read?_ofByte (ha : 0 ≤ a) (b : UInt8) :
    Columns.read? (Line.ofByte a b).text.toList = some ⟨a, [b]⟩ :=
  Columns.read?_text (Int.toNat_of_nonneg ha).symm (List.cons_ne_nil b [])

theorem read?_ofPair (ha : 0 ≤ a) (high low : UInt8) :
    Columns.read? (Line.ofPair [] a high low).text.toList = some ⟨a, [high, low]⟩ := by
  have haddress : (Line.ofPair [] a high low).address = (a.toNat : Int) := by
    rw [Line.ofPair_address, Int.toNat_of_nonneg ha]
  have hread := Columns.read?_text haddress (by rw [Line.ofPair_bytes]; exact List.cons_ne_nil _ _)
  rwa [Line.ofPair_address, Line.ofPair_bytes] at hread

theorem readAs_take (ha : 0 ≤ a) (data : List UInt8) (k : Nat) :
    ReadAs ((((allLines [] a data).take k).map Line.text).map String.toList) a 2 (data.take (2 * k)) := by
  induction a, data using allLines.induct generalizing k with
  | case1 a =>
    rw [allLines, List.take_nil, List.take_nil]
    exact Columns.readAs_nil a 2
  | case2 a b =>
    cases k with
    | zero => exact Columns.readAs_nil a 2
    | succ k =>
      have hrow := Columns.readAs_cons (read?_ofByte ha b) (Columns.readAs_nil (a + 2) 2)
      rw [allLines, Nat.mul_succ, List.take_succ_cons, List.take_nil, List.take_succ_cons, List.take_nil]
      exact hrow
  | case3 a high low rest ih =>
    cases k with
    | zero => exact Columns.readAs_nil a 2
    | succ k =>
      have hrow := Columns.readAs_cons (read?_ofPair ha high low) (ih (by omega) k)
      rw [allLines, Nat.mul_succ, List.take_succ_cons, List.take_succ_cons, List.take_succ_cons]
      exact hrow

theorem length_allLines_le (symbols : Symbols) (a : Int) (data : List UInt8) :
    (allLines symbols a data).length ≤ data.length := by
  induction a, data using allLines.induct with
  | case1 a => exact Nat.le_refl 0
  | case2 a b => exact Nat.le_refl 1
  | case3 a high low rest ih =>
    rw [allLines, List.length_cons, List.length_cons, List.length_cons]
    omega

theorem readAs_lines (ha : 0 ≤ a) (data : List UInt8) (count : Option Int) :
    ReadAs (((lines [] a data count).map Line.text).map String.toList) a 2 (listed data count) := by
  cases count with
  | none =>
    have hall := readAs_take ha data data.length
    rw [List.take_of_length_le (length_allLines_le [] a data), List.take_of_length_le (by omega)] at hall
    exact hall
  | some c =>
    have hcount : (2 * max c 0).toNat = 2 * c.toNat := by omega
    rw [listed, hcount, Nat.min_comm, ← List.take_eq_take_min]
    exact readAs_take ha data c.toNat

end Listing

/-! ## Lines are visible -/

namespace Line

open Text (Visible)

theorem visible_mnemonic (f : Form) : Visible f.mnemonic := by
  cases f <;> decide

theorem visible_fixed {f : Form} {name : String} (h : .fixed name ∈ f.operands) : Visible name := by
  cases f <;> simp [Form.operands] at h <;> subst h <;> decide

theorem visible_byteText (b : UInt8) : Visible (Operand.byteText b) :=
  .append (by decide) (.hex 2 _)

theorem visible_operandText (ins : Instruction) : Visible ins.operandText := by
  refine .intercalate (by decide) fun t ht => ?_
  obtain ⟨o, ho, rfl⟩ := List.mem_map.mp ht
  cases o with
  | vx => exact .append (by decide) (.hex 1 _)
  | vy => exact .append (by decide) (.hex 1 _)
  | n => exact .nat _
  | kk => exact visible_byteText _
  | nnn => exact .append (by decide) (.hex 3 _)
  | fixed name => exact visible_fixed ho

/-- A line is visible if its own texts are. -/
theorem visible_text {l : Line} (hm : Visible l.mnemonic) (ho : Visible l.operand) (hc : Visible l.comment) :
    Visible l.text := by
  have hfront : Visible (l.addressText ++ ": " ++ Text.padRight 5 (Text.hexBytes l.bytes) ++ "  ") :=
    .append (.append (.append (.append (by decide) (.hex 3 _)) (by decide)) (.padRight (.hexBytes _) 5))
      (by decide)
  have hstatement : Visible l.statement := by
    unfold statement
    split
    · exact hm
    · exact .append (.append hm (by decide)) ho
  unfold text
  split
  · exact .append hfront hstatement
  · exact .append (.append (.append hfront (.padRight hstatement 16)) (by decide)) hc

theorem visible_ofPair (a : Int) (high low : UInt8) : Visible (ofPair [] a high low).text := by
  simp only [ofPair]
  split
  · rename_i ins _
    refine visible_text (visible_mnemonic ins.form) (visible_operandText ins) ?_
    show Visible (if ins.form.pointsTo then "" else "")
    split <;> decide
  · have hmnemonic : Visible "DW" := by decide
    have hcomment : Visible "unknown opcode" := by decide
    exact visible_text hmnemonic (.append (by decide) (.hex 4 _)) hcomment

theorem visible_ofByte (a : Int) (b : UInt8) : Visible (ofByte a b).text := by
  have hmnemonic : Visible "DB" := by decide
  have hcomment : Visible "incomplete instruction" := by decide
  exact visible_text hmnemonic (visible_byteText b) hcomment

theorem visible_allLines (a : Int) (data : List UInt8) :
    ∀ line ∈ Listing.allLines [] a data, Visible line.text := by
  induction a, data using Listing.allLines.induct with
  | case1 a => simp [Listing.allLines]
  | case2 a b =>
    rw [Listing.allLines, List.forall_mem_singleton]
    exact visible_ofByte a b
  | case3 a high low rest ih =>
    rw [Listing.allLines, List.forall_mem_cons]
    exact ⟨visible_ofPair a high low, ih⟩

theorem visible_lines (a : Int) (data : List UInt8) (count : Option Int) :
    ∀ line ∈ Listing.lines [] a data count, Visible line.text := by
  intro line hline
  refine visible_allLines a data line ?_
  cases count with
  | none => exact hline
  | some c => exact List.mem_of_mem_take hline

end Line

end Chip8
