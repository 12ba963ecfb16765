import Chip8.Proofs.Transfer

/-!
# Chip8.Proofs.Access

Bytes written to memory from outside, and read back. Addresses wrap, so that of more bytes than memory has
cells the later ones lie over the earlier ones.

* `Memory.Holds`      : what a cell holds after bytes were written from an address on.
* `Session.Writes`    : what a write leaves in the cells, in the rest of the session, and for a reader.
* `Session.Loads`     : when a program is loaded, and what that leaves.

Main statement: `writes_and_loads`.
-/

namespace Chip8

namespace Memory

variable {m : Memory} {a : Int} {c n : Nat} {bytes : List UInt8}

/-- What cell `c` holds after bytes were written from `a` on: the last of them that fell on it, or else what
it held before. -/
inductive Holds (m : Memory) (a : Int) (bytes : List UInt8) (c : Nat) : UInt8 → Prop where
  | written {k : Nat} {b : UInt8} : bytes[k]? = some b → (a + k) % 0x1000 = c →
      (∀ j, k < j → j < bytes.length → (a + j) % 0x1000 ≠ c) → Holds m a bytes c b
  | kept : (∀ k < bytes.length, (a + k) % 0x1000 ≠ c) → Holds m a bytes c (m.read c)

/-- The bytes behind the first one come later. -/
theorem forall_lt_cons {b : UInt8} {P : Nat → Prop} {k : Nat}
    (h : ∀ j, k < j + 1 → j < bytes.length → P (j + 1)) :
    ∀ j, k < j → j < (b :: bytes).length → P j := by
  intro j hk hj
  cases j with
  | zero => omega
  | succ j => exact h j hk (Nat.lt_of_succ_lt_succ hj)

theorem holds_cons {b b' : UInt8} (ha : a % 0x1000 = (n : Int) % 0x1000) (hc : c < 0x1000)
    (h : (m.write n b).Holds (a + 1) bytes c b') : m.Holds a (b :: bytes) c b' := by
  cases h with
  | @written k b' hk hat hlast =>
    refine .written (k := k + 1) hk (by omega) (forall_lt_cons fun j hj hlt => ?_)
    have := hlast j (by omega) hlt
    omega
  | kept hnone =>
    rw [read_write]
    by_cases hn : n % 0x1000 = c % 0x1000
    · rw [if_pos hn]
      refine .written (k := 0) rfl (by omega) (forall_lt_cons fun j _ hlt => ?_)
      have := hnone j hlt
      omega
    · rw [if_neg hn]
      refine .kept fun j hj => ?_
      cases j with
      | zero => omega
      | succ j =>
        have := hnone j (Nat.lt_of_succ_lt_succ hj)
        omega

theorem holds_store (m : Memory) (bytes : List UInt8) (ha : a % 0x1000 = (n : Int) % 0x1000)
    (hc : c < 0x1000) : m.Holds a bytes c ((m.store n bytes).read c) := by
  induction bytes generalizing m a n with
  | nil => exact .kept (by simp)
  | cons b bytes ih => exact holds_cons ha hc (ih (m.write n b) (by omega))

theorem getElem_toList (m : Memory) {k : Nat} (hk : k < m.toList.length) : m.toList[k] = m.read k := by
  have hlt : k < 0x1000 := by simpa using hk
  simp only [Vector.getElem_toList, read, Nat.mod_eq_of_lt hlt]

/-- A store that does not wrap replaces as many bytes as it has, in their place. -/
theorem toList_store (m : Memory) (h : n + bytes.length ≤ 0x1000) :
    (m.store n bytes).toList = m.toList.take n ++ bytes ++ m.toList.drop (n + bytes.length) := by
  have htake : (m.toList.take n).length = n := by
    simp only [List.length_take, Vector.length_toList]
    omega
  refine List.ext_getElem ?_ fun k hk hk' => ?_
  · simp only [List.length_append, List.length_drop, Vector.length_toList, htake]
    omega
  · have hlt : k < 0x1000 := by simpa using hk
    rw [getElem_toList, read_store h hlt]
    obtain hbefore | hfrom := Nat.lt_or_ge k n
    · rw [if_neg (by omega), List.getElem_append_left (by simp; omega), List.getElem_append_left (by omega),
        List.getElem_take, getElem_toList]
    · obtain ⟨k, rfl⟩ := Nat.exists_eq_add_of_le hfrom
      rw [if_pos hfrom, Nat.add_sub_cancel_left, List.getD_eq_getElem?_getD]
      obtain hin | hbehind := Nat.lt_or_ge k bytes.length
      · rw [List.getElem_append_left (by simp; omega), List.getElem_append_right (by omega),
          List.getElem?_eq_getElem hin, Option.getD_some]
        simp only [htake, Nat.add_sub_cancel_left]
      · rw [List.getElem_append_right (by simp; omega), List.getElem?_eq_none hbehind, Option.getD_none,
          List.getElem_drop, getElem_toList]
        congr 1
        simp only [List.length_append, htake]
        omega

end Memory

namespace Machine

variable {m : Machine} {a : Int} {data : List UInt8}

/-- Many bytes are read as one is. -/
theorem peek_eq (m : Machine) (a count : Int) :
    m.peek a count = (List.range count.toNat).map fun (k : Nat) => m.peekByte (a + k) := by
  refine List.map_congr_left fun k _ => ?_
  exact (m.peekByte_add a k).symm

theorem peek_poke (h : data.length ≤ 0x1000) : (m.poke a data).peek a data.length = data := by
  rw [peek_eq, Int.toNat_natCast]
  refine List.ext_getElem (by simp) fun k hk hk' => ?_
  rw [List.getElem_map, List.getElem_range]
  exact peekByte_poke h hk'

end Machine

namespace Session

structure Writes (s : Session) (a : Int) (data : List UInt8) : Prop where
  cell : ∀ c < 0x1000,
    s.machine.memory.Holds a data c ((s.apply (.poke a data)).machine.memory.read c)
  rest : ∃ memory, s.apply (.poke a data) = s.change ({ · with memory })
  /-- Bytes that all find room are read back. -/
  peek : data.length ≤ 0x1000 → (s.apply (.poke a data)).machine.peek a data.length = data

/-- When a program is refused, and what it leaves if it is not: what writing it to the program area leaves,
and a note of it. -/
structure Loads (s : Session) (program : List UInt8) : Prop where
  refused_iff : (∃ x, s.load program = .error x) ↔ 3584 < program.length
  refused : ∀ x, s.load program = .error x →
    x = .tooLarge program.length 3584 ∧ s.apply (.load program) = s
  loaded : ∀ s', s.load program = .ok s' →
    s.apply (.load program) = s' ∧
      s' = (s.apply (.poke 0x200 program)).note (.programLoaded program.length)
  /-- Exactly its own stretch of memory is replaced. -/
  memory : ∀ s', s.load program = .ok s' →
    s'.machine.memory.toList = s.machine.memory.toList.take 0x200 ++ program ++
      s.machine.memory.toList.drop (0x200 + program.length)

theorem writes (s : Session) (a : Int) (data : List UInt8) : s.Writes a data where
  cell c hc := Memory.holds_store s.machine.memory data (by simp only [Memory.wrap]; omega) hc
  rest := ⟨_, rfl⟩
  peek := Machine.peek_poke

theorem load_eq (s : Session) (program : List UInt8) :
    s.load program = if program.length ≤ 3584 then
        .ok ((s.apply (.poke 0x200 program)).note (.programLoaded program.length))
      else .error (.tooLarge program.length 3584) := by
  have hcapacity : Memory.programCapacity = 3584 := rfl
  simp only [load, Machine.load, hcapacity]
  by_cases h : program.length ≤ 3584
  · rw [if_pos h, if_pos h]
    rfl
  · rw [if_neg h, if_neg h]
    rfl

theorem loads (s : Session) (program : List UInt8) : s.Loads program := by
  have hload := s.load_eq program
  by_cases h : program.length ≤ 3584
  · rw [if_pos h] at hload
    have hok {s' : Session} (hs : s.load program = .ok s') :
        s' = (s.apply (.poke 0x200 program)).note (.programLoaded program.length) := by
      rw [hload] at hs
      exact (Except.ok.inj hs).symm
    constructor
    case refused_iff =>
      rw [hload]
      refine iff_of_false ?_ (Nat.not_lt.mpr h)
      rintro ⟨x, hx⟩
      cases hx
    case refused =>
      intro x hx
      rw [hload] at hx
      cases hx
    case loaded =>
      intro s' hs
      refine ⟨?_, hok hs⟩
      simp only [apply, hs]
    case memory =>
      intro s' hs
      rw [hok hs]
      exact s.machine.memory.toList_store (n := 0x200) (by omega)
  · rw [if_neg h] at hload
    constructor
    case refused_iff =>
      rw [hload]
      exact iff_of_true ⟨_, rfl⟩ (Nat.lt_of_not_le h)
    case refused =>
      intro x hx
      rw [hload] at hx
      cases hx
      refine ⟨rfl, ?_⟩
      simp only [apply, hload]
    case loaded | memory =>
      intro s' hs
      rw [hload] at hs
      cases hs

/-- **Bytes in memory.** After a write each cell holds the last byte that fell on it, and all else is as it
was; both readers see that. A program that finds room is loaded as if its bytes were written to the program
area, and one that does not changes nothing. -/
theorem writes_and_loads (s : Session) :
    (∀ a data, s.Writes a data) ∧
    (∀ a count : Int, s.machine.peek a count =
      (List.range count.toNat).map fun (k : Nat) => s.machine.peekByte (a + k)) ∧
    (∀ a : Int, s.machine.peekByte a = s.machine.memory.read (a % 0x1000).toNat) ∧
    ∀ program, s.Loads program := by
  exact ⟨s.writes, s.machine.peek_eq, fun _ => rfl, s.loads⟩

/-- Two bytes at the end of memory, and two more that come round to its start. -/
def aroundEnd : List UInt8 :=
  [0x12, 0x34, 0x56, 0x78]

theorem aroundEnd_read :
    aroundEnd.length ≤ 0x1000 ∧
      ((start (.ofBytes #[]) false).apply (.poke (-2) aroundEnd)).machine.peek (-2) 4 = aroundEnd := by
  have hlength : aroundEnd.length ≤ 0x1000 := by decide
  obtain ⟨hwrites, -⟩ := writes_and_loads (start (.ofBytes #[]) false)
  exact ⟨hlength, (hwrites (-2) aroundEnd).peek hlength⟩

end Session
end Chip8
