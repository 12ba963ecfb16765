import Chip8.Proofs.Run

/-!
# Chip8.Proofs.PlainStepping

A run under breakpoints alone is plain stepping cut short.

`run_eq_stepping`: with no condition and no request, a run of `n` cycles ends at the first position of
plain stepping that is `n`, or whose cycle fails, or that is not the first and awaits a key or lies
at a breakpoint; the event tells which.
-/

namespace Chip8

/-- Nothing but breakpoints is set. -/
def Debugger.OnlyBreakpoints (d : Debugger) : Prop :=
  d.requested = false ∧ ∀ c ∈ d.conditions, c = none

theorem Debugger.OnlyBreakpoints.stop?_eq {d : Debugger} (h : d.OnlyBreakpoints) (m : Machine) :
    d.clearLast.stop? m = if m.pc ∈ d.breakpoints then some (atBreakpoint m.pc) else none := by
  have hc : d.clearLast.firstHolding? m = none := by
    refine List.findSome?_eq_none_iff.mpr fun c hc => ?_
    rw [h.2 c hc]
    rfl
  simp only [stop?, hc, Option.map_none]
  simp only [clearLast, h.1, Bool.false_eq_true, if_false]

namespace Session

variable {s s' : Session} {n k : Nat} {event : Event}

/-- Plain stepping from `s` is cut short at position `j` of `n`. -/
def CutAt (s : Session) (n j : Nat) : Prop :=
  j = n ∨ (s.engine.after j).completes = false ∨
    1 ≤ j ∧ ((s.engine.after j).machine.isAwaiting = true ∨
      s.debugger.hasBreakpoint (s.engine.after j).machine.pc = true)

/-- The event of a run of `n` cycles that is cut short at position `k`. -/
def CutEvent (s : Session) (n k : Nat) (event : Event) : Prop :=
  let m := (s.engine.after k).machine
  if m.isAwaiting = true ∧ (1 ≤ k ∨ n = 0) then event = awaitingKey m.pc
  else if k = n then event = budgetSpent m.pc n
  else if 1 ≤ k ∧ s.debugger.hasBreakpoint m.pc = true then event = Debugger.atBreakpoint m.pc
  else ∃ f, Engine.step (s.engine.after k) = .error (.fault f) (s.engine.after (k + 1)) ∧
    event = faulted m.pc f

theorem Completes.not_cutAt (hdone : s.Completes n k) (h : s.machine.WellFormed) :
    ∀ j < k, ¬s.CutAt n j := by
  intro j hj hcut
  have hle := hdone.le_budget
  have hskip := s.skips_le_one n
  rcases hcut with hn | hf | ⟨hpos, hstop⟩
  · omega
  · obtain ⟨a, hs⟩ := hdone.step j hj
    rw [Engine.completes_of_ok hs] at hf
    cases hf
  · obtain ⟨i, rfl⟩ := Nat.exists_eq_add_of_le' hpos
    have hw := hdone.instruction i hj
    rcases hstop with hwait | hbreak
    · rw [hw] at hwait
      cases hwait
    · exact not_hasBreakpoint_of_allows h (hdone.allowed _ hj (by omega)) hw hbreak

/-- Where a run ends plain stepping is cut short, and the event tells why. -/
theorem RunEnds.cutAt (hend : s.RunEnds n k event s') (hdone : s.Completes n k)
    (h : s.machine.WellFormed) (hd : s.debugger.OnlyBreakpoints) :
    s.CutAt n k ∧ s.CutEvent n k event := by
  have hpc := (Engine.wellFormed_after h k).pc_lt
  cases hend with
  | spent hk hw =>
    obtain rfl : k = n := by omega
    refine ⟨.inl rfl, ?_⟩
    simp only [CutEvent, hw, Bool.false_eq_true, false_and, if_false, if_true]
  | waits hpos hw =>
    have hcut : s.CutAt n k := by
      by_cases hk : 1 ≤ k
      · exact .inr (.inr ⟨hk, .inl hw⟩)
      · exact .inl (by omega)
    refine ⟨hcut, ?_⟩
    have hc : 1 ≤ k ∨ n = 0 := by omega
    simp only [CutEvent, hw, hc, and_self, if_true]
  | stopped hk hp hw hs =>
    rw [hd.stop?_eq] at hs
    split at hs
    · rename_i hmem
      cases hs
      have hb := (Debugger.hasBreakpoint_iff hpc).mpr hmem
      have hpos : 1 ≤ k := by
        -- at position zero the run would have gone over the breakpoint
        refine Nat.one_le_iff_ne_zero.mpr fun hz => ?_
        subst hz
        have hone : s.skips n = 1 := if_pos ⟨by omega, hb⟩
        omega
      refine ⟨.inr (.inr ⟨hpos, .inr hb⟩), ?_⟩
      have hn : k ≠ n := by omega
      simp only [CutEvent, hw, hn, hpos, hb, Bool.false_eq_true, false_and, and_self, if_false,
        if_true]
    · cases hs
  | @fails f hk hw ha hs =>
    refine ⟨.inr (.inl (Engine.completes_of_error hs)), ?_⟩
    have hskip := s.skips_le_one n
    have hwait : ¬((s.engine.after k).machine.isAwaiting = true ∧ (1 ≤ k ∨ n = 0)) := by
      rintro ⟨hwait, hc⟩
      rw [hw (by omega)] at hwait
      cases hwait
    have hbreak : ¬(1 ≤ k ∧ s.debugger.hasBreakpoint (s.engine.after k).machine.pc = true) := by
      rintro ⟨hpos, hb⟩
      exact not_hasBreakpoint_of_allows h (ha (by omega)) (hw hpos) hb
    have hn : k ≠ n := by omega
    simp only [CutEvent, if_neg hwait, if_neg hbreak, if_neg hn]
    exact ⟨f, hs, rfl⟩

/-- The machine and the random bytes that a run leaves are those of plain stepping. -/
theorem RunEnds.core_eq {budget : Int} (hend : s.RunEnds budget k event s')
    (h : s.machine.WellFormed) : s'.engine.core = (s.engine.after k).core := by
  cases hend with
  | spent => rfl
  | waits => rfl
  | stopped => rfl
  | fails _ _ _ hs =>
    have hcore := Engine.core_of_step_error (Engine.wellFormed_after h k) hs
    exact hcore

/-- **A run under breakpoints is plain stepping**, cut short at the first position where it has to
be, with the event that tells why. A run of one cycle or more completes one or ends in an error. -/
theorem run_eq_stepping (s : Session) (h : s.machine.WellFormed) (hd : s.debugger.OnlyBreakpoints)
    (n : Nat) :
    ∃ k event s', run n .debugger s = .ok event s' ∧
      (s.CutAt n k ∧ ∀ j < k, ¬s.CutAt n j) ∧
      s'.engine.machine = (s.engine.after k).machine ∧
      s'.engine.random = (s.engine.after k).random ∧
      s.CutEvent n k event ∧
      (1 ≤ n → 1 ≤ k ∨ event.reason = .error) := by
  obtain ⟨k, event, s', hrun, hdone, hend, -⟩ := run_ends h n
  obtain ⟨hcut, hevent⟩ := hend.cutAt hdone h hd
  have hcore := hend.core_eq h
  refine ⟨k, event, s', hrun, ⟨hcut, hdone.not_cutAt h⟩, congrArg Prod.fst hcore,
    congrArg Prod.snd hcore, hevent, fun hn => ?_⟩
  by_cases hk : 1 ≤ k
  · exact .inl hk
  · have hwait : ¬((s.engine.after k).machine.isAwaiting = true ∧ (1 ≤ k ∨ n = 0)) := by omega
    have hbreak : ¬(1 ≤ k ∧ s.debugger.hasBreakpoint (s.engine.after k).machine.pc = true) := by
      omega
    have hne : k ≠ n := by omega
    simp only [CutEvent, if_neg hwait, if_neg hne, if_neg hbreak] at hevent
    obtain ⟨f, -, rfl⟩ := hevent
    exact .inr rfl

/-- Four instructions, and a breakpoint at the third. -/
def beforeThird : Session where
  engine :=
    { machine := { Machine.fresh with
        memory := Memory.fresh.store Memory.programStart
          [0x60, 0x01, 0x61, 0x02, 0x62, 0x03, 0x12, 0x06] }
      random := .ofBytes #[]
      trace := false
      notes := #[] }
  debugger := Debugger.fresh.addBreakpoint 0x204
  record := #[]
  cycles := 0

theorem beforeThird_run :
    beforeThird.machine.WellFormed ∧ beforeThird.debugger.OnlyBreakpoints ∧
    ∃ k event s', run 9 .debugger beforeThird = .ok event s' ∧
      (beforeThird.CutAt 9 k ∧ ∀ j < k, ¬beforeThird.CutAt 9 j) ∧
      s'.engine.machine = (beforeThird.engine.after k).machine ∧
      s'.engine.random = (beforeThird.engine.after k).random ∧
      beforeThird.CutEvent 9 k event ∧
      (1 ≤ 9 → 1 ≤ k ∨ event.reason = .error) := by
  have hw : beforeThird.machine.WellFormed := Machine.wellFormed_fresh.setMemory _
  have hd : beforeThird.debugger.OnlyBreakpoints := ⟨rfl, fun c hc => by cases hc⟩
  exact ⟨hw, hd, run_eq_stepping beforeThird hw hd 9⟩

end Session
end Chip8
