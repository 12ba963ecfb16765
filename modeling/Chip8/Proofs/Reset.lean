import Chip8.Proofs.Seen

/-!
# Chip8.Proofs.Reset

A reset against a new start. A reset writes nothing to memory but the glyphs, so what it gives is a
powered-on machine only because nothing else below the program area can have changed.

* `Session.renewed`  : a new session with the program area, breakpoints and conditions of another.
* `Session.Restarts` : a reset has made a session the same as a new one.

`restarts_of_deeds`: whatever was done to a session, writes to memory apart, a reset makes it the same as
its renewed session, under any further deeds.
-/

namespace Chip8

namespace Memory

theorem eq_of_read {m n : Memory} (h : ∀ c < 0x1000, m.read c = n.read c) : m = n := by
  refine Vector.ext fun c hc => ?_
  have hread := h c hc
  simp only [read, Nat.mod_eq_of_lt (show c < 0x1000 from hc)] at hread
  exact hread

theorem withGlyphs_withGlyphs (m : Memory) : m.withGlyphs.withGlyphs = m.withGlyphs := by
  refine eq_of_read fun c hc => ?_
  have hread := read_withGlyphs m hc
  rw [hread, read_withGlyphs_of_eq hread hc]

theorem getD_load (m : Memory) (a : Nat) {count k : Nat} (h : k < count) (b : UInt8) :
    (m.load a count).getD k b = m.read (a + k) := by
  simp only [load, List.getD_eq_getElem?_getD, List.getElem?_map, List.getElem?_range h,
    Option.map_some, Option.getD_some]

end Memory

namespace Machine

variable {m : Machine}

/-- With its protected area intact a machine that is powered on again is a fresh one that is loaded with
its program area. -/
theorem load_programArea (h : m.IntactBelow) :
    fresh.load (m.peek 0x200 3584) = .ok m.powerOn := by
  have hlength : (m.peek 0x200 3584).length = 3584 := by
    simp only [peek, Memory.load, List.length_map, List.length_range]
    rfl
  have hmemory : fresh.memory.store Memory.programStart (m.peek 0x200 3584) = m.memory.withGlyphs := by
    refine Memory.eq_of_read fun c hc => ?_
    rw [Memory.read_store (by rw [hlength]; decide) hc]
    by_cases hlow : c < 0x200
    · rw [if_neg (by simp only [Memory.programStart]; omega),
        Memory.read_withGlyphs_of_eq (h c hlow) hc]
      exact Memory.read_fresh hc
    · obtain ⟨k, rfl⟩ := Nat.exists_eq_add_of_le (Nat.le_of_not_lt hlow)
      have hglyphs : Memory.glyphs.length ≤ 0x200 + k := by
        simp only [Memory.glyphs, List.length_cons, List.length_nil]
        omega
      have harea : (m.peek 0x200 3584).getD k (fresh.memory.read (0x200 + k)) =
          m.memory.read (0x200 + k) := Memory.getD_load _ _ (by omega) _
      have hnone : Memory.glyphs.getD (0x200 + k) (m.memory.read (0x200 + k)) =
          m.memory.read (0x200 + k) := by
        rw [List.getD_eq_getElem?_getD, List.getElem?_eq_none hglyphs, Option.getD_none]
      rw [Memory.read_withGlyphs _ hc, hnone, if_pos (by simp only [Memory.programStart]; omega)]
      simp only [Memory.programStart, Nat.add_sub_cancel_left]
      exact harea
  rw [load, if_pos (by rw [hlength]; decide), hmemory]
  rfl

end Machine

namespace Session

variable {s t : Session}

/-- A new session with the same program area, breakpoints and conditions, and as many random bytes
taken. -/
def renewed (s : Session) (trace : Bool) : Except LoadError Session :=
  ((start s.engine.random trace).load (s.machine.peek 0x200 3584)).map
    (·.control fun d =>
      { d with breakpoints := s.debugger.breakpoints, conditions := s.debugger.conditions })

structure Restarts (s t : Session) : Prop where
  machine : s.reset.machine = t.machine
  cycles : s.reset.cycles = 0
  requested : s.reset.debugger.requested = false
  last : s.reset.debugger.last = none
  breakpoints : s.reset.debugger.breakpoints = s.debugger.breakpoints
  conditions : s.reset.debugger.conditions = s.debugger.conditions
  random : s.reset.engine.random = s.engine.random
  /-- Another reset changes nothing. -/
  again : s.reset.reset = s.reset
  /-- No deeds tell the two apart. -/
  further : ∀ deeds, (s.reset.undergoAll deeds).SameSeen (t.undergoAll deeds) ∧
    ∀ d, (s.reset.undergoAll deeds).reply d = (t.undergoAll deeds).reply d

theorem reset_reset (s : Session) : s.reset.reset = s.reset := by
  simp only [reset, Machine.powerOn, Memory.withGlyphs_withGlyphs, Debugger.clearRequest,
    Debugger.clearLast]

theorem renewed_of_intactBelow (h : s.machine.IntactBelow) (trace : Bool) :
    ∃ t, s.renewed trace = .ok t ∧ s.reset.SameSeen t := by
  have hload : (start s.engine.random trace).machine.load (s.machine.peek 0x200 3584) =
      .ok s.machine.powerOn := Machine.load_programArea h
  simp only [renewed, load, hload, Except.map]
  refine ⟨_, rfl, ?_, rfl, rfl⟩
  rw [reset_core]
  simp only [change, note, control, Engine.core, start, ofEngine]

theorem restarts_of_sameSeen (h : s.reset.SameSeen t) : s.Restarts t where
  machine := h.machine
  cycles := rfl
  requested := rfl
  last := rfl
  breakpoints := rfl
  conditions := rfl
  random := by simp only [reset]
  again := reset_reset s
  further deeds := by
    have hall := undergoAll_congr h deeds
    exact ⟨hall, fun d => (undergo_congr hall d).1⟩

/-- **A reset is a new start.** -/
theorem restarts_of_deeds (random : RandomSource) (trace trace' : Bool) (deeds : List Deed)
    (hd : ∀ a bytes, .operation (.poke a bytes) ∉ deeds) :
    ∃ t, ((start random trace).undergoAll deeds).renewed trace' = .ok t ∧
      ((start random trace).undergoAll deeds).Restarts t := by
  have hintact := intactBelow_undergoAll (wellFormed_start random trace) Machine.intactBelow_fresh hd
  obtain ⟨t, hrenewed, hsame⟩ := renewed_of_intactBelow hintact trace'
  exact ⟨t, hrenewed, restarts_of_sameSeen hsame⟩

/-- Stores a random byte behind the program and stops at a breakpoint; then a key is held, and a break is
requested. -/
def storesRandom : List Deed :=
  [.operation (.load [0xC0, 0xFF, 0xA3, 0x00, 0xF0, 0x55, 0x12, 0x06]),
    .operation (.debug (.addBreakpoint 0x206)), .operation (.run 10),
    .operation (.holdKey (.number 5) true), .operation (.debug .request)]

/-- The new start has the byte that the old program stored, and begins with the next random byte. -/
theorem storesRandom_restarts :
    (∀ a bytes, .operation (.poke a bytes) ∉ storesRandom) ∧
      ∃ t, ((start (.ofBytes #[7, 9]) false).undergoAll storesRandom).renewed true = .ok t ∧
        ((start (.ofBytes #[7, 9]) false).undergoAll storesRandom).Restarts t ∧
        t.machine.peekByte 0x300 = 7 ∧
        ((start (.ofBytes #[7, 9]) false).undergoAll storesRandom).debugger.requested = true ∧
        ((start (.ofBytes #[7, 9]) false).undergoAll storesRandom).engine.random =
          .cycle #[7, 9] 1 := by
  have hd : ∀ a bytes, .operation (.poke a bytes) ∉ storesRandom := by
    intro a bytes
    simp [storesRandom]
  obtain ⟨t, ht, hrestarts⟩ := restarts_of_deeds (.ofBytes #[7, 9]) false true storesRandom hd
  refine ⟨hd, t, ht, hrestarts, ?_, by decide +kernel, by decide +kernel⟩
  rw [← hrestarts.machine]
  decide +kernel

end Session
end Chip8
