import Chip8.Proofs.Effect
import Chip8.Proofs.Numeral
import Chip8.Session

/-!
# Chip8.Proofs.FetchedWord

A word of memory as the engine fetches it and as a listing shows it.

* `Engine.Agrees`      : a line tells what becomes of the cycle that carries out its word.
* `Line.Shows`         : a line shows a word under a label.
* `Session.listAt_eq`  : the lines that a session lists, one for every word.

`engine_agrees_with_line`: where no key is awaited, the cycle fails as unknown exactly if the line of its
word is data or a call of machine code, and otherwise does and fails as the form on the line can.
`listAt_shows`: a session lists as many words as it is asked for, each the one that would be fetched, also
past the end of memory. The labels go on counting there: they are addresses exactly up to the end.
-/

namespace Chip8

namespace Line

/-- A line that is labelled and shows a word, as a number and in its text as two bytes. -/
structure Shows (l : Line) (label : Int) (w : Nat) : Prop where
  address : l.address = label
  opcode : l.opcode = w
  text : ∃ rest, l.text = "$" ++ Text.hex 3 label ++ ": " ++ Text.hex 2 (w / 0x100 : Nat) ++ " " ++
    Text.hex 2 (w % 0x100 : Nat) ++ "  " ++ rest

variable (symbols : Symbols) (a : Int) (high low : UInt8)

theorem text_eq (l : Line) :
    ∃ rest, l.text = l.addressText ++ ": " ++ Text.padRight 5 (Text.hexBytes l.bytes) ++ "  " ++ rest := by
  simp only [text]
  split
  · exact ⟨_, rfl⟩
  · refine ⟨Text.padRight 16 l.statement ++ " ; " ++ l.comment, ?_⟩
    simp only [String.append_assoc]

/-- Two bytes fill their column. -/
theorem padRight_hexBytes :
    Text.padRight 5 (Text.hexBytes [high, low]) = Text.hexByte high ++ " " ++ Text.hexByte low := by
  have hbytes : Text.hexBytes [high, low] = Text.hexByte high ++ " " ++ Text.hexByte low := by
    simp only [Text.hexBytes, List.map_cons, List.map_nil, String.intercalate_cons_cons,
      String.intercalate_singleton]
  have hlength : (Text.hexByte high ++ " " ++ Text.hexByte low).length = 5 := by
    rw [String.length_append, String.length_append, Text.length_hexByte, Text.length_hexByte]
    rfl
  rw [hbytes, Text.padRight, hlength]
  exact String.append_empty

theorem ofPair_shows : (ofPair symbols a high low).Shows a (high.toNat * 0x100 + low.toNat) := by
  have hlow := low.toNat_lt
  have hdiv : (high.toNat * 0x100 + low.toNat) / 0x100 = high.toNat := by omega
  have hmod : (high.toNat * 0x100 + low.toNat) % 0x100 = low.toNat := by omega
  refine ⟨ofPair_address symbols a high low, ofPair_opcode symbols a high low, ?_⟩
  obtain ⟨rest, htext⟩ := (ofPair symbols a high low).text_eq
  refine ⟨rest, ?_⟩
  rw [htext, addressText, ofPair_address, ofPair_bytes, padRight_hexBytes, hdiv, hmod]
  simp only [String.append_assoc, Text.hexByte]

end Line

/-! ## The line of a cycle -/

namespace Instruction

variable {w : Nat}

theorem ofWord_eq_none_iff : ofWord? w = none ↔ Form.ofWord? w = none := by
  rw [ofWord?, Option.map_eq_none_iff]

end Instruction

namespace Machine

variable {m m' : Machine} {r r' : RandomSource} {ins : Instruction}

/-- A store is one of two forms. -/
theorem form_of_stored {bytes : List UInt8} (h : m.stored? ins = some bytes) :
    ins.form = .ldBVx ∨ ins.form = .ldMemVx := by
  simp only [stored?] at h
  split at h
  · exact .inl ‹_›
  · exact .inr ‹_›
  · cases h

/-- A cycle answers with no other instruction than that of the word. -/
theorem ofWord_of_turns {answer : Option Instruction} (ht : m.Turns r answer m' r')
    (ha : answer = some ins) : Instruction.ofWord? m.word = some ins := by
  cases ht with
  | waitsOn => cases ha
  | takes _ _ hd => exact hd.trans ha
  | carries _ hd =>
    split at ha
    · cases ha
    · exact hd.trans ha

end Machine

namespace Engine

variable {e : Engine} {cause : Cause} {l : Line}

def FailsFor (e : Engine) (cause : Cause) : Prop :=
  ∃ f e', step e = .error (.fault f) e' ∧ f.cause = cause

theorem failsFor_iff (h : e.machine.WellFormed) : e.FailsFor cause ↔ e.machine.Fails cause := by
  rw [← raises_iff h]
  constructor
  · rintro ⟨f, e', hs, rfl⟩
    obtain ⟨cause, -, hf, -⟩ := step_error h hs
    cases hf
    exact ⟨e', hs⟩
  · rintro ⟨e', hs⟩
    exact ⟨_, e', hs, rfl⟩

structure Agrees (e : Engine) (l : Line) : Prop where
  /-- Data and calls of machine code are what the engine does not know. -/
  unknown_iff : (∃ text, e.FailsFor (.unknownOpcode text)) ↔ l.form = none ∨ l.form = some .sys
  overflow : e.FailsFor .stackOverflow → l.form = some .call
  underflow : e.FailsFor .stackUnderflow → l.form = some .ret
  protectedWrite : ∀ target, e.FailsFor (.protectedWrite target) →
    l.form = some .ldBVx ∨ l.form = some .ldMemVx
  completes : ∀ ins e', step e = .ok (some ins) e' → l.form = some ins.form ∧ l.opcode = ins.opcode

theorem unknown_iff_form (h : e.machine.WellFormed) (ha : e.machine.awaiting = none) :
    (∃ text, e.FailsFor (.unknownOpcode text)) ↔
      Form.ofWord? e.machine.word = none ∨ Form.ofWord? e.machine.word = some .sys := by
  constructor
  · rintro ⟨text, hfails⟩
    obtain ⟨cause, hcause⟩ : ∃ cause, cause = Cause.unknownOpcode text := ⟨_, rfl⟩
    rw [failsFor_iff h, ← hcause] at hfails
    cases hfails with
    | undecoded _ hd => exact .inl (Instruction.ofWord_eq_none_iff.mp hd)
    | @refused ins _ _ hd hr =>
      cases hr with
      | machineCode hf =>
        rw [← hf]
        exact .inr (Instruction.form_of_ofWord hd)
      | underflow | overflow | protectedWrite => cases hcause
  · rintro (hnone | hsys)
    · exact ⟨_, (failsFor_iff h).mpr
        (.undecoded (.inl ha) (Instruction.ofWord_eq_none_iff.mpr hnone))⟩
    · exact ⟨_, (failsFor_iff h).mpr
        (.refused ha (Instruction.ofWord_of_form hsys) (.machineCode rfl))⟩

/-- The other causes come from an instruction, whose form is that of the word. -/
theorem refuses_of_failsFor (h : e.machine.WellFormed) (hfails : e.FailsFor cause)
    (hknown : ∀ text, cause ≠ .unknownOpcode text) :
    ∃ ins, Form.ofWord? e.machine.word = some ins.form ∧ e.machine.Refuses ins cause := by
  cases (failsFor_iff h).mp hfails with
  | undecoded => exact absurd rfl (hknown _)
  | refused _ hd hr => exact ⟨_, Instruction.form_of_ofWord hd, hr⟩

theorem agrees_of_form (h : e.machine.WellFormed) (ha : e.machine.awaiting = none)
    (hform : l.form = Form.ofWord? e.machine.word) (hopcode : l.opcode = e.machine.word) :
    e.Agrees l where
  unknown_iff := by
    rw [hform]
    exact unknown_iff_form h ha
  overflow hfails := by
    obtain ⟨ins, hw, hr⟩ := refuses_of_failsFor h hfails (by simp)
    cases hr with
    | overflow hf => rw [hform, hw, hf]
  underflow hfails := by
    obtain ⟨ins, hw, hr⟩ := refuses_of_failsFor h hfails (by simp)
    cases hr with
    | underflow hf => rw [hform, hw, hf]
  protectedWrite target hfails := by
    obtain ⟨ins, hw, hr⟩ := refuses_of_failsFor h hfails (by simp)
    cases hr with
    | protectedWrite hb =>
      rw [hform, hw]
      exact (Machine.form_of_stored hb).imp (congrArg some) (congrArg some)
  completes ins e' hs := by
    have hd := Machine.ofWord_of_turns (turns_of_step h hs) rfl
    rw [hform, hopcode]
    exact ⟨Instruction.form_of_ofWord hd, congrArg _ (Instruction.opcode_of_ofWord hd).symm⟩

/-- **Cycle and listing agree on what is an instruction.** Where no key is awaited, the line of the two
bytes at the program counter, the second of them taken around the end of memory, tells what becomes of
the cycle: whatever the line's label and the symbols. -/
theorem engine_agrees_with_line (h : e.machine.WellFormed) (ha : e.machine.awaiting = none)
    (symbols : Symbols) (a : Int) :
    ∃ line, Listing.lineAt symbols a [e.machine.memory.read e.machine.pc,
      e.machine.memory.read ((e.machine.pc + 1) % 0x1000)] 0 = .ok line ∧ e.Agrees line := by
  have hsecond : e.machine.memory.read ((e.machine.pc + 1) % 0x1000) =
      e.machine.memory.read (e.machine.pc + 1) := by
    simp only [Memory.read, Nat.mod_mod]
  refine ⟨_, rfl, agrees_of_form h ha ?_ ?_⟩
  · rw [Line.ofPair_form, hsecond, Machine.word]
  · rw [Line.ofPair_opcode, hsecond, Machine.word]

/-- A call in the last byte of memory and the first one, with the stack full. -/
def callAroundEnd : Engine where
  machine := { Machine.fresh with
    memory := Memory.fresh.write 0xFFF 0x2A
    pc := 0xFFF
    sp := 16 }
  random := .ofBytes #[]
  trace := false
  notes := #[]

theorem callAroundEnd_agrees :
    callAroundEnd.machine.WellFormed ∧ callAroundEnd.machine.awaiting = none ∧
      callAroundEnd.FailsFor .stackOverflow ∧
      ∃ line, Listing.lineAt [] 0xFFF [0x2A, 0xF0] 0 = .ok line ∧ callAroundEnd.Agrees line ∧
        line.form = some .call := by
  have h : callAroundEnd.machine.WellFormed :=
    { Machine.wellFormed_fresh with pc_lt := by decide, sp_range := by decide }
  have hbytes : [callAroundEnd.machine.memory.read callAroundEnd.machine.pc,
      callAroundEnd.machine.memory.read ((callAroundEnd.machine.pc + 1) % 0x1000)] = [0x2A, 0xF0] := by
    decide +kernel
  have hd : Instruction.ofWord? callAroundEnd.machine.word = some ⟨.call, 0x2AF0⟩ := by decide +kernel
  have hfails : callAroundEnd.FailsFor .stackOverflow :=
    (failsFor_iff h).mpr (.refused rfl hd (.overflow rfl rfl))
  obtain ⟨line, hline, hagrees⟩ := engine_agrees_with_line h rfl [] 0xFFF
  rw [hbytes] at hline
  exact ⟨h, rfl, hfails, line, hline, hagrees, hagrees.overflow hfails⟩

end Engine

namespace Machine

/-- The word that is fetched when the program counter is `p`. -/
def wordAt (m : Machine) (p : Nat) : Nat :=
  { m with pc := p }.word

theorem wordAt_eq (m : Machine) (p : Nat) :
    m.wordAt (p % 0x1000) = (m.memory.read p).toNat * 0x100 + (m.memory.read (p + 1)).toNat := by
  have hfirst : m.memory.read (p % 0x1000) = m.memory.read p := by
    simp only [Memory.read, Nat.mod_mod]
  have hsecond : m.memory.read (p % 0x1000 + 1) = m.memory.read (p + 1) := by
    simp only [Memory.read, Nat.mod_add_mod]
  simp only [wordAt, word, hfirst, hsecond]

end Machine

theorem Memory.load_succ (m : Memory) (a n : Nat) :
    m.load a (n + 1) = m.read a :: m.load (a + 1) n := by
  simp only [load, List.range_succ_eq_map, List.map_cons, List.map_map, Nat.add_zero]
  refine congrArg (_ :: ·) (List.map_congr_left fun k _ => ?_)
  rw [Function.comp_apply, Nat.succ_eq_add_one, Nat.add_right_comm, Nat.add_assoc]

/-- The lines of a stretch of memory, whatever it is labelled. -/
theorem Listing.allLines_load (symbols : Symbols) (m : Memory) (label : Int) (a n : Nat) :
    allLines symbols label (m.load a (n * 2)) = (List.range n).map fun k =>
      Line.ofPair symbols (label + (2 * k : Nat)) (m.read (a + 2 * k)) (m.read (a + 2 * k + 1)) := by
  induction n generalizing label a with
  | zero => rfl
  | succ n ih =>
    rw [Nat.succ_mul, Memory.load_succ, Memory.load_succ, allLines, ih, List.range_succ_eq_map,
      List.map_cons, List.map_map]
    refine List.cons_eq_cons.mpr ⟨by simp, List.map_congr_left fun k _ => ?_⟩
    have hlabel : label + 2 + ((2 * k : Nat) : Int) = label + ((2 * k.succ : Nat) : Int) := by omega
    have hfirst : a + 1 + 1 + 2 * k = a + 2 * k.succ := by omega
    rw [Function.comp_apply, hlabel, hfirst]

namespace Session

theorem listAt_eq (s : Session) (a : Int) (n : Nat) :
    s.listAt (some a) n = (List.range n).map fun k =>
      Line.ofPair [] (a + (2 * k : Nat)) (s.machine.memory.read (Memory.wrap a + 2 * k))
        (s.machine.memory.read (Memory.wrap a + 2 * k + 1)) := by
  have hcount : ((n : Int) * 2).toNat = n * 2 := by omega
  have hall : s.listAt (some a) n =
      (Listing.allLines [] a (s.machine.memory.load (Memory.wrap a) ((n : Int) * 2).toNat)).take n :=
    rfl
  rw [hall, hcount, Listing.allLines_load, List.take_of_length_le]
  simp only [List.length_map, List.length_range, Nat.le_refl]

variable {a n k : Nat}

theorem listAt_line (s : Session) (ha : a < 0x1000) (hk : k < n) :
    ∃ line, (s.listAt (some (a : Int)) n)[k]? = some line ∧
      line.Shows (a + 2 * k : Nat) (s.machine.wordAt ((a + 2 * k) % 0x1000)) := by
  have hlabel : (a : Int) + (2 * k : Nat) = (a + 2 * k : Nat) := (Int.natCast_add a (2 * k)).symm
  rw [listAt_eq, List.getElem?_map, List.getElem?_range hk, Option.map_some, Memory.wrap_of_lt ha,
    Machine.wordAt_eq, hlabel]
  exact ⟨_, rfl, Line.ofPair_shows _ _ _ _⟩

/-- A session lists `n` words from `a` on, each the one that would be fetched at its address. -/
structure Lists (s : Session) (a n : Nat) : Prop where
  length : (s.listAt (some (a : Int)) n).length = n
  shows : ∀ k < n, ∃ line, (s.listAt (some (a : Int)) n)[k]? = some line ∧
    line.Shows (a + 2 * k : Nat) (s.machine.wordAt ((a + 2 * k) % 0x1000))

/-- Every line is labelled with the address that its word is at. -/
def LabelsAddresses (s : Session) (a n : Nat) : Prop :=
  ∀ k < n, ∀ line, (s.listAt (some (a : Int)) n)[k]? = some line →
    line.addressText = "$" ++ Text.hex 3 ((a + 2 * k) % 0x1000 : Nat)

theorem addressText_listAt (s : Session) (ha : a < 0x1000) (hk : k < n) {line : Line}
    (h : (s.listAt (some (a : Int)) n)[k]? = some line) :
    line.addressText = "$" ++ Text.hex 3 ((a + 2 * k) % 0x1000 : Nat) ↔ a + 2 * k < 0x1000 := by
  obtain ⟨line', h', hshows⟩ := s.listAt_line ha hk
  rw [h] at h'
  cases h'
  rw [Line.addressText, hshows.address]
  constructor
  · intro htext
    have hmod := Text.hex_injective ((String.append_right_inj _).mp htext)
    omega
  · intro hlt
    rw [Nat.mod_eq_of_lt hlt]

theorem labelsAddresses_iff (s : Session) (ha : a < 0x1000) :
    s.LabelsAddresses a n ↔ a + 2 * n ≤ 0x1001 := by
  constructor
  · intro h
    cases n with
    | zero => omega
    | succ n =>
      -- the last line is labelled rightly, so it begins before the end
      obtain ⟨line, hline, -⟩ := s.listAt_line ha (Nat.lt_succ_self n)
      have hlast := (s.addressText_listAt ha (Nat.lt_succ_self n) hline).mp
        (h n (Nat.lt_succ_self n) line hline)
      omega
  · intro h k hk line hline
    exact (s.addressText_listAt ha hk hline).mpr (by omega)

/-- **A listing of memory shows the words that would be fetched**, as many as are asked for and also past
the end. The labels are the addresses of the words if and only if the last word begins before the end. -/
theorem listAt_shows (s : Session) (ha : a < 0x1000) (n : Nat) :
    s.Lists a n ∧ (s.LabelsAddresses a n ↔ a + 2 * n ≤ 0x1001) := by
  refine ⟨⟨?_, fun k hk => s.listAt_line ha hk⟩, s.labelsAddresses_iff ha⟩
  rw [listAt_eq, List.length_map, List.length_range]

/-- Two words from the last byte of memory on, the first half of it a glyph. -/
theorem lastByte_shows :
    0xFFF < 0x1000 ∧ ((start (.ofBytes #[]) false).Lists 0xFFF 2 ∧
      ((start (.ofBytes #[]) false).LabelsAddresses 0xFFF 2 ↔ 0xFFF + 2 * 2 ≤ 0x1001)) :=
  ⟨by decide, listAt_shows (start (.ofBytes #[]) false) (by decide) 2⟩

/-- The word behind the last one is that of the first glyph, but its label is no address. -/
theorem secondLine_mislabelled :
    ((start (.ofBytes #[]) false).listAt (some 0xFFE) 2).map Line.text =
      ["$FFE: 00 00  SYS 0x000", "$1000: F0 90  DW 0xF090        ; unknown opcode"] ∧
    (start (.ofBytes #[]) false).machine.wordAt 0x000 = 0xF090 ∧
    ¬(start (.ofBytes #[]) false).LabelsAddresses 0xFFE 2 := by
  refine ⟨by decide +kernel, by decide +kernel, fun h => ?_⟩
  have hend : 0xFFE + 2 * 2 ≤ 0x1001 := (labelsAddresses_iff _ (by decide)).mp h
  revert hend
  decide

end Session

end Chip8
