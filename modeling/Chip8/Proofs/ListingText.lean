import Chip8.CommandLine.Disassemble
import Chip8.Proofs.Columns
import Mathlib.Data.List.DropRight

/-!
# Chip8.Proofs.ListingText

The text of a whole listing, read back. Nothing but the text is read: behind the last empty line are the
instruction lines, and in the paragraph before are the remarks of a dump. A title may have line breaks and
dollar signs in it; it stands before all this.

* `Tells`        : instruction lines that are the bytes that were asked for, and a dump that is the file.
* `tells_titled` : every listing tells its file, whatever its title.
* `plain_titled` : printed, the title of a listing is without its control sequences, and nothing else differs.
-/

namespace Chip8
namespace CommandLine
namespace Disassemble

open Columns (ReadAs)
open Screen (textLines)
open Text (Visible)

variable {a b : Int} {data : List UInt8}

/-! ## The text of a listing -/

/-- The lines behind the last empty one. -/
def lastParagraph (ls : List (List Char)) : List (List Char) :=
  ls.rtakeWhile (!·.isEmpty)

/-- The lines before the last empty one. -/
def beforeLast (ls : List (List Char)) : List (List Char) :=
  (ls.rdropWhile (!·.isEmpty)).dropLast

/-- The instruction lines of a text in which every line ends in a break. -/
def codeLines (text : String) : List (List Char) :=
  lastParagraph (textLines text).dropLast

/-- A line of a dump is a remark that begins with an address. -/
def dumpLine? : List Char → Option (List Char)
  | ';' :: ' ' :: '$' :: cs => some ('$' :: cs)
  | _ => none

/-- The lines of the dump in the paragraph before the instruction lines. -/
def dumpLines (text : String) : List (List Char) :=
  (lastParagraph (beforeLast (textLines text).dropLast)).filterMap dumpLine?

structure Tells (text : String) (base : Int) (data : List UInt8) (count : Option Int) (hexDump : Bool) :
    Prop where
  code : ReadAs (codeLines text) base 2 (Listing.listed data count)
  dump : hexDump = true → ReadAs (dumpLines text) base 16 data

def titled (name body : String) : String :=
  Outcome.line ("; Disassembly of " ++ name) ++ body

def sizeLines (job : Job) (base : Int) : List String :=
  ["; Size: " ++ toString job.data.length ++ " bytes", "; Base address: $" ++ Text.hex 3 base]

theorem titled_injective {name name' body : String} (h : titled name body = titled name' body) :
    name = name' := by
  unfold titled Outcome.line at h
  simpa using h

/-- The lines of a listing behind its title. -/
def bodyLines (job : Job) (base : Int) : List String :=
  sizeLines job base ++ "" :: ((if job.hexDump then dump base job.data else []) ++
    (Listing.lines [] base job.data job.count).map Line.text)

theorem document_eq (job : Job) (base : Int) :
    document job base (Listing.lines [] base job.data job.count) =
      titled (Path.name job.path) (Outcome.lines (bodyLines job base)) := by
  unfold document header titled
  rw [← Text.lines_cons, bodyLines]
  rfl

theorem lastParagraph_append {ls : List (List Char)} (h : ∀ l ∈ ls, l ≠ []) (before : List (List Char)) :
    lastParagraph (before ++ [] :: ls) = ls := by
  have hls : ∀ l ∈ ls.reverse, (!l.isEmpty) = true := by
    intro l hl
    simpa using h l (List.mem_reverse.mp hl)
  rw [lastParagraph, List.rtakeWhile, List.reverse_append, List.reverse_cons, List.append_assoc,
    List.takeWhile_append_of_pos hls]
  simp

theorem beforeLast_append {ls : List (List Char)} (h : ∀ l ∈ ls, l ≠ []) (before : List (List Char)) :
    beforeLast (before ++ [] :: ls) = before := by
  have hls : ∀ l ∈ ls.reverse, (!l.isEmpty) = true := by
    intro l hl
    simpa using h l (List.mem_reverse.mp hl)
  rw [beforeLast, List.rdropWhile, List.reverse_append, List.reverse_cons, List.append_assoc,
    List.dropWhile_append_of_pos hls]
  simp

/-! ## The dump -/

theorem dumpRows_cons (h : data ≠ []) :
    dumpRows a data = ("; $" ++ Text.hex 3 a ++ ": " ++ Text.hexBytes (data.take 16)) ::
      dumpRows (a + 16) (data.drop 16) := by
  rw [dumpRows, if_neg (by simpa using h)]

theorem readAs_dumpRows (ha : 0 ≤ a) (data : List UInt8) :
    ReadAs (((dumpRows a data).map String.toList).filterMap dumpLine?) a 16 data := by
  induction a, data using dumpRows.induct with
  | case1 a data h =>
    obtain rfl := List.isEmpty_iff.mp h
    rw [dumpRows, if_pos h]
    exact Columns.readAs_nil a 16
  | case2 a data h ih =>
    have hne : data ≠ [] := by simpa using h
    have hrow : dumpLine? ("; $" ++ Text.hex 3 a ++ ": " ++ Text.hexBytes (data.take 16)).toList =
        some ('$' :: (Text.hexChars 3 a ++ ':' :: ' ' :: ((Text.hexBytes (data.take 16)).toList ++ []))) := by
      simp only [String.toList_append, Text.hex, String.toList_ofList, List.append_assoc, List.append_nil]
      rfl
    have htake : data.take 16 ≠ [] := by simpa using hne
    have hread := Columns.read?_of_columns a.toNat htake (.inl rfl)
    rw [Int.toNat_of_nonneg ha] at hread
    rw [dumpRows_cons hne, List.map_cons, List.filterMap_cons_some hrow]
    have hall := Columns.readAs_cons hread (ih (by omega))
    rwa [List.take_append_drop] at hall

theorem visible_dumpRows (a : Int) (data : List UInt8) : ∀ row ∈ dumpRows a data, Visible row := by
  induction a, data using dumpRows.induct with
  | case1 a data h =>
    rw [dumpRows, if_pos h]
    simp
  | case2 a data h ih =>
    rw [dumpRows, if_neg h, List.forall_mem_cons]
    exact ⟨.append (.append (.append (by decide) (.hex 3 a)) (by decide)) (.hexBytes _), ih⟩

theorem visible_rule : Visible rule := by
  decide

theorem visible_dump (base : Int) (data : List UInt8) : ∀ s ∈ dump base data, Visible s := by
  intro s hs
  simp only [dump, List.mem_append, List.mem_cons, List.not_mem_nil, or_false] at hs
  rcases hs with ((rfl | rfl) | hs) | (rfl | rfl)
  · decide
  · exact visible_rule
  · exact visible_dumpRows base data s hs
  · exact visible_rule
  · decide

theorem visible_bodyLines (job : Job) (base : Int) : ∀ s ∈ bodyLines job base, Visible s := by
  intro s hs
  simp only [bodyLines, sizeLines, List.mem_append, List.mem_cons, List.not_mem_nil, or_false, List.mem_map] at hs
  rcases hs with (rfl | rfl) | rfl | hs | ⟨line, hline, rfl⟩
  · exact .append (.append (by decide) (.nat _)) (by decide)
  · exact .append (by decide) (.hex 3 base)
  · decide
  · split at hs
    · exact visible_dump base job.data s hs
    · cases hs
  · exact Line.visible_lines base job.data job.count line hline

/-! ## Reading back -/

theorem dropLast_textLines_titled (name : String) {ss : List String} (h : ∀ s ∈ ss, Visible s) :
    (textLines (titled name (Outcome.lines ss))).dropLast =
      textLines ("; Disassembly of " ++ name) ++ ss.map String.toList := by
  rw [titled, Text.textLines_line_append, Text.textLines_lines h, ← List.append_assoc, List.dropLast_concat]

/-- An instruction line begins with a dollar sign. -/
theorem text_ne_nil (line : Line) : line.text.toList ≠ [] := by
  obtain ⟨rest, htext⟩ := line.text_eq
  rw [htext, Line.addressText]
  simp

/-- A line of a dump begins as a remark. -/
theorem dumpRow_ne_nil (a : Int) (data : List UInt8) : ∀ row ∈ dumpRows a data, row.toList ≠ [] := by
  induction a, data using dumpRows.induct with
  | case1 a data h =>
    rw [dumpRows, if_pos h]
    simp
  | case2 a data h ih =>
    rw [dumpRows, if_neg h, List.forall_mem_cons]
    exact ⟨by simp, ih⟩

def dumpParagraph (base : Int) (data : List UInt8) : List (List Char) :=
  (["; Hex dump:", rule] ++ dumpRows base data ++ [rule]).map String.toList

theorem dumpParagraph_ne_nil (base : Int) (data : List UInt8) : ∀ l ∈ dumpParagraph base data, l ≠ [] := by
  have hrule : rule.toList ≠ [] := by decide
  have htitle : "; Hex dump:".toList ≠ [] := by decide
  simp only [dumpParagraph, List.map_append, List.map_cons, List.map_nil, List.forall_mem_append,
    List.forall_mem_cons, List.not_mem_nil, false_implies, implies_true, and_true]
  refine ⟨⟨⟨htitle, hrule⟩, ?_⟩, hrule⟩
  rw [List.forall_mem_map]
  exact dumpRow_ne_nil base data

/-- Title and rules are no lines of bytes. -/
theorem filterMap_dumpParagraph (base : Int) (data : List UInt8) :
    (dumpParagraph base data).filterMap dumpLine? =
      ((dumpRows base data).map String.toList).filterMap dumpLine? := by
  have hrule : dumpLine? rule.toList = none := by decide
  have htitle : dumpLine? "; Hex dump:".toList = none := by decide
  simp only [dumpParagraph, List.map_append, List.map_cons, List.map_nil, List.filterMap_append,
    List.filterMap_cons_none hrule, List.filterMap_cons_none htitle, List.filterMap_nil, List.nil_append,
    List.append_nil]

/-- In front of the instruction lines is an empty line, and in front of that a dump has its paragraph. -/
theorem exists_paragraphs (name : String) (job : Job) (base : Int) :
    ∃ before, (textLines (titled name (Outcome.lines (bodyLines job base)))).dropLast = before ++ [] ::
        ((Listing.lines [] base job.data job.count).map Line.text).map String.toList ∧
      (job.hexDump = true → ∃ head, before = head ++ [] :: dumpParagraph base job.data) := by
  have hempty : "".toList = [] := rfl
  rw [dropLast_textLines_titled name (visible_bodyLines job base), bodyLines, List.map_append, List.map_cons,
    hempty, ← List.append_assoc]
  generalize textLines ("; Disassembly of " ++ name) ++ (sizeLines job base).map String.toList = head
  by_cases hdump : job.hexDump = true
  · refine ⟨_, ?_, fun _ => ⟨head, rfl⟩⟩
    simp only [hdump, if_true, dump, dumpParagraph, List.map_append, List.map_cons, List.map_nil, hempty,
      List.append_assoc, List.cons_append, List.nil_append]
  · refine ⟨head, ?_, fun h => absurd h hdump⟩
    rw [if_neg hdump, List.nil_append]

theorem tells_titled (name : String) (job : Job) (hb : 0 ≤ b) :
    Tells (titled name (Outcome.lines (bodyLines job b))) b job.data job.count job.hexDump := by
  have htexts : ∀ l ∈ ((Listing.lines [] b job.data job.count).map Line.text).map String.toList, l ≠ [] := by
    rw [List.forall_mem_map, List.forall_mem_map]
    exact fun line _ => text_ne_nil line
  obtain ⟨before, hlines, hparagraph⟩ := exists_paragraphs name job b
  constructor
  · rw [codeLines, hlines, lastParagraph_append htexts]
    exact Listing.readAs_lines hb job.data job.count
  · intro hdump
    obtain ⟨head, rfl⟩ := hparagraph hdump
    rw [dumpLines, hlines, beforeLast_append htexts, lastParagraph_append (dumpParagraph_ne_nil b job.data),
      filterMap_dumpParagraph]
    exact readAs_dumpRows hb job.data

theorem plain_titled (name : String) (job : Job) (base : Int) :
    Text.plain (titled name (Outcome.lines (bodyLines job base))) =
      titled (Text.plain name) (Outcome.lines (bodyLines job base)) := by
  have htitle : Visible "; Disassembly of " := by decide
  have hbody : (bodyLines job base).map Text.plain = bodyLines job base := by
    rw [List.map_congr_left fun s hs => Text.plain_of_visible (visible_bodyLines job base s hs), List.map_id']
  rw [titled, Text.plain_line_append, Text.plain_append htitle.no_escape, Text.plain_lines, hbody, titled]

end Disassemble
end CommandLine
end Chip8
