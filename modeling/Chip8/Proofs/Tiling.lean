import Chip8.Proofs.Assembly
import Mathlib.Data.List.Forall2

/-!
# Chip8.Proofs.Tiling

A listing covers its bytes. `Listing.Sweeps` are the rules by which a listing goes on: behind each line by
the size of the line, until the bytes are at an end or there are enough lines. There is one listing that the
rules yield (`sweeps_iff`), and its lines lie side by side (`Listing.Tiles`).

* `Symbols.Names`   : the last name that was given to an address.
* `Line.Annotates`  : a line with its own comment if it points to an address, and otherwise the same.

Main statement: `listing_tiles`.
-/

namespace Chip8

namespace Symbols

def addAll (symbols : Symbols) (names : List (Int × String)) : Symbols :=
  names.foldl (fun symbols n => symbols.add n.1 n.2) symbols

/-- The last of the names that were given to an address, or an empty one if none was. -/
inductive Names (given : List (Int × String)) (a : Int) : String → Prop where
  | last {before after : List (Int × String)} {name : String} : given = before ++ (a, name) :: after →
      (∀ n ∈ after, n.1 ≠ a) → Names given a name
  | none : (∀ n ∈ given, n.1 ≠ a) → Names given a ""

theorem addAll_eq (symbols : Symbols) (names : List (Int × String)) :
    symbols.addAll names = symbols ++ names := by
  induction names generalizing symbols with
  | nil => exact (List.append_nil symbols).symm
  | cons n names ih =>
    have hcons : symbols.addAll (n :: names) = (symbols.add n.1 n.2).addAll names := rfl
    rw [hcons, ih, add, List.append_assoc, List.singleton_append]

theorem names_name (symbols : Symbols) (a : Int) : Names symbols a (symbols.name a) := by
  have hne {l : List (Int × String)} (h : ∀ n ∈ l, (a != n.1) = true) :
      ∀ n ∈ l.reverse, n.1 ≠ a := by
    intro n hn
    have hn := h n (List.mem_reverse.mp hn)
    exact (bne_iff_ne.mp hn).symm
  rw [Symbols.name]
  cases h : symbols.reverse.lookup a with
  | some name =>
    obtain ⟨after, before, hsplit, hafter⟩ := List.lookup_eq_some_iff.mp h
    have hgiven : symbols = before.reverse ++ (a, name) :: after.reverse := by
      rw [← List.reverse_reverse symbols, hsplit]
      simp
    exact .last hgiven (hne hafter)
  | none =>
    have hnone := hne (List.lookup_eq_none_iff.mp h)
    rw [List.reverse_reverse] at hnone
    exact .none hnone

end Symbols

namespace Line

/-- The forms whose operands have an address in them. -/
def addressForms : List Form :=
  [.sys, .jp, .call, .ldI, .jpV0]

/-- The second line differs from the first in its comment at most. Where a line points to an address, its
comment is the last name given to that, and otherwise it is the same. -/
structure Annotates (given : List (Int × String)) (l l' : Line) : Prop where
  same : l' = { l with comment := l'.comment }
  named : ∀ f ∈ addressForms, l.form = some f → Symbols.Names given (l.opcode % 0x1000) l'.comment
  kept : (∀ f ∈ addressForms, l.form ≠ some f) → l'.comment = l.comment

theorem pointsTo_iff (f : Form) : f.pointsTo = true ↔ f ∈ addressForms := by
  cases f <;> decide

end Line

namespace Listing

variable {symbols other : Symbols} {data : List UInt8} {count : Option Int} {a : Int} {offset done : Nat}
  {line : Line} {items : List Line}

/-- How a listing goes on at an offset, with the address there and the number of lines before it. -/
inductive Sweeps (symbols : Symbols) (data : List UInt8) (count : Option Int) :
    Nat → Int → Nat → List Line → Prop where
  | atEnd {offset done : Nat} {a : Int} : data.length ≤ offset → Sweeps symbols data count offset a done []
  | enough {offset done : Nat} {a c : Int} : count = some c → c ≤ done →
      Sweeps symbols data count offset a done []
  | next {offset done : Nat} {a : Int} {line : Line} {items : List Line} :
      (∀ c, count = some c → done < c) → lineAt symbols a data offset = .ok line →
      Sweeps symbols data count (offset + line.size) (a + line.size) (done + 1) items →
      Sweeps symbols data count offset a done (line :: items)

structure Tiles (data : List UInt8) (start : Int) (items : List Line) : Prop where
  bytes : items.flatMap Line.bytes = data
  address : ∀ before line after, items = before ++ line :: after →
    line.address = start + (before.flatMap Line.bytes).length
  /-- Every line is of two bytes, and none of them is a single byte's. -/
  even : data.length % 2 = 0 → ∀ line ∈ items, line.size = 2 ∧ line.mnemonic ≠ "DB"
  /-- Every line but the last is of two bytes, and the last is a single byte's. -/
  odd : data.length % 2 = 1 → ∃ pairs last, items = pairs ++ [last] ∧
    (∀ line ∈ pairs, line.size = 2 ∧ line.mnemonic ≠ "DB") ∧ last.size = 1 ∧ last.mnemonic = "DB"

/-! ## One line after another -/

theorem size_ofPair (symbols : Symbols) (a : Int) (high low : UInt8) :
    (Line.ofPair symbols a high low).size = 2 := by
  rw [Line.size, Line.ofPair_bytes]
  rfl

theorem firstLine?_eq_none_iff : firstLine? symbols a data = none ↔ data = [] := by
  cases data with
  | nil => simp only [firstLine?]
  | cons b rest => cases rest <;> simp [firstLine?]

/-- The first line and the lines of the bytes behind it. No line is of no bytes, so that a listing comes to
an end. -/
theorem allLines_of_firstLine (h : firstLine? symbols a data = some line) :
    0 < line.size ∧
      allLines symbols a data = line :: allLines symbols (a + line.size) (data.drop line.size) := by
  cases data with
  | nil => cases h
  | cons b rest =>
    cases rest with
    | nil =>
      cases h
      exact ⟨Nat.one_pos, rfl⟩
    | cons low rest =>
      cases h
      rw [size_ofPair]
      exact ⟨Nat.two_pos, rfl⟩

theorem lines_nil (symbols : Symbols) (a : Int) (count : Option Int) : lines symbols a [] count = [] := by
  cases count with
  | none => rfl
  | some c => exact List.take_nil

theorem lines_of_enough {c : Int} (h : c ≤ 0) : lines symbols a data (some c) = [] := by
  have hzero : c.toNat = 0 := Int.toNat_of_nonpos h
  rw [lines, hzero, List.take_zero]

theorem lines_of_firstLine (h : firstLine? symbols a data = some line)
    (hc : ∀ c, count = some c → 0 < c) :
    lines symbols a data count =
      line :: lines symbols (a + line.size) (data.drop line.size) (count.map (· - 1)) := by
  obtain ⟨-, hall⟩ := allLines_of_firstLine h
  cases count with
  | none => exact hall
  | some c =>
    have hpos : c.toNat = (c - 1).toNat + 1 := by
      have := hc c rfl
      omega
    simp only [lines, Option.map_some, hall, hpos, List.take_succ_cons]

/-! ## The listing that is swept -/

theorem lineAt_eq_ok_iff :
    lineAt symbols a data offset = .ok line ↔ firstLine? symbols a (data.drop offset) = some line := by
  simp only [lineAt]
  cases firstLine? symbols a (data.drop offset) <;> simp

/-- With one more line done, one fewer is to come. -/
theorem map_sub_succ (count : Option Int) (done : Nat) :
    (count.map (· - (done : Int))).map (· - 1) = count.map (· - ((done + 1 : Nat) : Int)) := by
  cases count with
  | none => rfl
  | some c =>
    simp only [Option.map_some, Option.some.injEq]
    omega

theorem pos_of_map_sub (h : ∀ c, count = some c → (done : Int) < c) :
    ∀ c, count.map (· - (done : Int)) = some c → 0 < c := by
  intro c hc
  obtain ⟨total, htotal, rfl⟩ := Option.map_eq_some_iff.mp hc
  have := h total htotal
  omega

theorem eq_lines_of_sweeps (h : Sweeps symbols data count offset a done items) :
    items = lines symbols a (data.drop offset) (count.map (· - (done : Int))) := by
  induction h with
  | @atEnd offset done a hend =>
    rw [List.drop_eq_nil_of_le hend, lines_nil]
  | @enough offset done a c hcount hc =>
    rw [hcount, Option.map_some, lines_of_enough (by omega)]
  | @next offset done a line items hc hline _ ih =>
    rw [lines_of_firstLine (lineAt_eq_ok_iff.mp hline) (pos_of_map_sub hc), ih, map_sub_succ,
      List.drop_drop]

theorem sweeps_lines (symbols : Symbols) (data : List UInt8) (count : Option Int) (offset : Nat) (a : Int)
    (done : Nat) :
    Sweeps symbols data count offset a done
      (lines symbols a (data.drop offset) (count.map (· - (done : Int)))) := by
  -- every line brings the end of the bytes nearer
  induction hn : data.length - offset using Nat.strongRecOn generalizing offset a done with
  | ind n ih =>
    by_cases hc : ∀ c, count = some c → (done : Int) < c
    · cases hline : firstLine? symbols a (data.drop offset) with
      | none =>
        have hend := firstLine?_eq_none_iff.mp hline
        rw [hend, lines_nil]
        exact .atEnd (List.drop_eq_nil_iff.mp hend)
      | some line =>
        obtain ⟨hpos, -⟩ := allLines_of_firstLine hline
        have hlt : offset < data.length := by
          refine Nat.lt_of_not_le fun hle => ?_
          rw [List.drop_eq_nil_of_le hle] at hline
          cases hline
        rw [lines_of_firstLine hline (pos_of_map_sub hc), map_sub_succ, List.drop_drop]
        exact .next hc (lineAt_eq_ok_iff.mpr hline) (ih _ (by omega) _ _ _ rfl)
    · obtain ⟨c, hc⟩ := Classical.not_forall.mp hc
      obtain ⟨hcount, hle⟩ := Classical.not_imp.mp hc
      have henough : Sweeps symbols data count offset a done [] := .enough hcount (Int.not_lt.mp hle)
      rw [eq_lines_of_sweeps henough] at henough
      exact henough

/-- There is one listing that the rules yield. -/
theorem sweeps_iff (symbols : Symbols) (data : List UInt8) (count : Option Int) (a : Int)
    (items : List Line) :
    Sweeps symbols data count 0 a 0 items ↔ items = lines symbols a data count := by
  have hcount : count.map (· - ((0 : Nat) : Int)) = count := by
    cases count <;> simp
  have h := sweeps_lines symbols data count 0 a 0
  rw [hcount, List.drop_zero] at h
  constructor
  · intro hs
    have heq := eq_lines_of_sweeps hs
    rwa [hcount, List.drop_zero] at heq
  · rintro rfl
    exact h

/-! ## Lines side by side -/

theorem flatMap_bytes_allLines (symbols : Symbols) (a : Int) (data : List UInt8) :
    (allLines symbols a data).flatMap Line.bytes = data := by
  induction a, data using allLines.induct with
  | case1 a => rfl
  | case2 a b => rfl
  | case3 a high low rest ih =>
    rw [allLines, List.flatMap_cons, ih, Line.ofPair_bytes]
    rfl

theorem address_of_append {before after : List Line}
    (h : allLines symbols a data = before ++ line :: after) :
    line.address = a + (before.flatMap Line.bytes).length := by
  induction a, data using allLines.induct generalizing before with
  | case1 a => simp [allLines] at h
  | case2 a b =>
    cases before with
    | nil =>
      cases h
      rw [List.flatMap_nil]
      exact (Int.add_zero a).symm
    | cons l before => simp [allLines] at h
  | case3 a high low rest ih =>
    rw [allLines] at h
    cases before with
    | nil =>
      obtain ⟨rfl, -⟩ := List.cons.inj h
      rw [List.flatMap_nil, Line.ofPair_address]
      exact (Int.add_zero a).symm
    | cons l before =>
      obtain ⟨rfl, hrest⟩ := List.cons.inj h
      rw [ih hrest, List.flatMap_cons, Line.ofPair_bytes, List.length_append]
      simp only [List.length_cons, List.length_nil]
      omega

theorem mnemonic_ofPair_ne (symbols : Symbols) (a : Int) (high low : UInt8) :
    (Line.ofPair symbols a high low).mnemonic ≠ "DB" := by
  simp only [Line.ofPair]
  split
  · exact (mnemonic_ne_data _).1
  · exact (by decide : "DW" ≠ "DB")

theorem even_allLines (h : data.length % 2 = 0) :
    ∀ line ∈ allLines symbols a data, line.size = 2 ∧ line.mnemonic ≠ "DB" := by
  induction a, data using allLines.induct with
  | case1 a => simp [allLines]
  | case2 a b => simp at h
  | case3 a high low rest ih =>
    rw [allLines, List.forall_mem_cons]
    refine ⟨⟨size_ofPair symbols a high low, mnemonic_ofPair_ne symbols a high low⟩, ih ?_⟩
    simp only [List.length_cons] at h
    omega

theorem odd_allLines (h : data.length % 2 = 1) :
    ∃ pairs last, allLines symbols a data = pairs ++ [last] ∧
      (∀ line ∈ pairs, line.size = 2 ∧ line.mnemonic ≠ "DB") ∧ last.size = 1 ∧ last.mnemonic = "DB" := by
  induction a, data using allLines.induct with
  | case1 a => simp at h
  | case2 a b => exact ⟨[], Line.ofByte a b, rfl, by simp, rfl, rfl⟩
  | case3 a high low rest ih =>
    have hrest : rest.length % 2 = 1 := by
      simp only [List.length_cons] at h
      omega
    obtain ⟨pairs, last, hall, hpairs, hlast⟩ := ih hrest
    refine ⟨Line.ofPair symbols a high low :: pairs, last, by rw [allLines, hall]; rfl, ?_, hlast⟩
    rw [List.forall_mem_cons]
    exact ⟨⟨size_ofPair symbols a high low, mnemonic_ofPair_ne symbols a high low⟩, hpairs⟩

theorem tiles_allLines (symbols : Symbols) (a : Int) (data : List UInt8) :
    Tiles data a (allLines symbols a data) where
  bytes := flatMap_bytes_allLines symbols a data
  address _ _ _ h := address_of_append h
  even := even_allLines
  odd := odd_allLines

theorem allLines_append (more : List UInt8) (h : data.length % 2 = 0) :
    allLines symbols a (data ++ more) =
      allLines symbols a data ++ allLines symbols (a + data.length) more := by
  induction a, data using allLines.induct with
  | case1 a => simp [allLines]
  | case2 a b => simp at h
  | case3 a high low rest ih =>
    have hrest : rest.length % 2 = 0 := by
      simp only [List.length_cons] at h
      omega
    have haddress : a + 2 + (rest.length : Int) = a + ((high :: low :: rest).length : Int) := by
      simp only [List.length_cons]
      omega
    rw [List.cons_append, List.cons_append, allLines, allLines, ih hrest, haddress, List.cons_append]

/-! ## Symbols -/

theorem annotates_ofPair (symbols other : Symbols) (a : Int) (high low : UInt8) :
    Line.Annotates symbols (Line.ofPair other a high low) (Line.ofPair symbols a high low) := by
  simp only [Line.ofPair]
  cases h : Instruction.ofWord? (high.toNat * 0x100 + low.toNat) with
  | some ins =>
    have hnnn : ((high.toNat * 0x100 + low.toNat : Nat) : Int) % 0x1000 = (ins.nnn : Int) := by
      rw [Instruction.nnn, Instruction.opcode_of_ofWord h, Int.natCast_emod]
      rfl
    refine ⟨rfl, ?_, ?_⟩
    · intro f hf hform
      obtain rfl : ins.form = f := Option.some.inj hform
      dsimp only
      rw [if_pos ((Line.pointsTo_iff _).mpr hf), hnnn]
      exact symbols.names_name ins.nnn
    · intro hform
      have hnot : ¬ins.form.pointsTo = true := fun hp =>
        hform ins.form ((Line.pointsTo_iff _).mp hp) rfl
      dsimp only
      rw [if_neg hnot, if_neg hnot]
  | none =>
    refine ⟨rfl, fun f _ hform => ?_, fun _ => rfl⟩
    cases hform

theorem annotates_allLines (symbols other : Symbols) (a : Int) (data : List UInt8) :
    List.Forall₂ (Line.Annotates symbols) (allLines other a data) (allLines symbols a data) := by
  induction a, data using allLines.induct with
  | case1 a => exact .nil
  | case2 a b => exact .cons ⟨rfl, by simp [Line.ofByte], fun _ => rfl⟩ .nil
  | case3 a high low rest ih => exact .cons (annotates_ofPair symbols other a high low) ih

theorem annotates_lines (symbols other : Symbols) (a : Int) (data : List UInt8) (count : Option Int) :
    List.Forall₂ (Line.Annotates symbols) (lines other a data count) (lines symbols a data count) := by
  have hall := annotates_allLines symbols other a data
  cases count with
  | none => exact hall
  | some c => exact List.forall₂_take _ hall

/-- **A listing tiles its bytes.** What the rules of the sweep yield is the listing; without a count its
lines cover the bytes side by side, all of two bytes but for an odd byte at the end, and with a count it is
the first of these lines. Bytes behind an even number of bytes are listed as they are alone at their
address. Symbols show in the comments of the lines that point to an address, as the last name given to it,
and nowhere else. -/
theorem listing_tiles (table : Symbols) (names : List (Int × String)) (a : Int) (data : List UInt8) :
    (∀ count items, Sweeps (table.addAll names) data count 0 a 0 items ↔
      items = lines (table.addAll names) a data count) ∧
    Tiles data a (lines (table.addAll names) a data none) ∧
    (∀ count, lines (table.addAll names) a data (some count) =
      (lines (table.addAll names) a data none).take (max count 0).toNat) ∧
    (∀ more, data.length % 2 = 0 → lines (table.addAll names) a (data ++ more) none =
      lines (table.addAll names) a data none ++
        lines (table.addAll names) (a + data.length) more none) ∧
    ∀ other count, List.Forall₂ (Line.Annotates (table ++ names)) (lines other a data count)
      (lines (table.addAll names) a data count) := by
  refine ⟨fun count items => sweeps_iff _ data count a items, tiles_allLines _ a data, fun count => ?_,
    fun more h => allLines_append more h, fun other count => ?_⟩
  · have hmax : (max count 0).toNat = count.toNat := by omega
    rw [hmax]
    rfl
  · rw [← Symbols.addAll_eq]
    exact annotates_lines _ other a data count

/-- A jump and a data word. -/
def jumpThenData : List UInt8 :=
  [0x12, 0x04, 0xFF, 0xFF]

/-- The address that the jump goes to is named again; a single byte lies there. -/
theorem jumpThenData_tiles :
    jumpThenData.length % 2 = 0 ∧
      lines (Symbols.addAll [(0x204, "loop")] [(0x204, "again")]) 0x200 (jumpThenData ++ [0xA2]) none =
        lines (Symbols.addAll [(0x204, "loop")] [(0x204, "again")]) 0x200 jumpThenData none ++
          lines (Symbols.addAll [(0x204, "loop")] [(0x204, "again")]) 0x204 [0xA2] none ∧
      (lines (Symbols.addAll [(0x204, "loop")] [(0x204, "again")]) 0x200 jumpThenData none).map
        Line.comment = ["again", "unknown opcode"] := by
  have h : jumpThenData.length % 2 = 0 := rfl
  obtain ⟨-, -, -, happend, -⟩ :=
    listing_tiles [(0x204, "loop")] [(0x204, "again")] 0x200 jumpThenData
  exact ⟨h, happend [0xA2] h, by decide⟩

end Listing
end Chip8
