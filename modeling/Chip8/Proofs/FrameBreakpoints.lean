import Chip8.Proofs.Frames

/-!
# Chip8.Proofs.FrameBreakpoints

Frames against breakpoints. Each frame is a run of its own, and a run steps over a breakpoint at its
first program counter. So a breakpoint is passed exactly when the last cycle of a frame comes to it and
another frame is to follow.

`haltsAtBreakpoints_iff`: a call begins no instruction at a breakpoint but its very first one, and ends
at the first breakpoint that a cycle comes to, if and only if no frame boundary falls on a breakpoint.
-/

namespace Chip8

/-- An instruction would begin at a breakpoint. -/
def Debugger.BreaksAt (d : Debugger) (m : Machine) : Prop :=
  m.isAwaiting = false ∧ d.hasBreakpoint m.pc = true

instance (d : Debugger) (m : Machine) : Decidable (d.BreaksAt m) :=
  inferInstanceAs (Decidable (_ ∧ _))

theorem Debugger.stop?_of_breaksAt {d : Debugger} {m : Machine} (hpc : m.pc < 0x1000)
    (hq : d.requested = false) (hb : d.BreaksAt m) : d.stop? m = some (atBreakpoint m.pc) := by
  have hmem := (hasBreakpoint_iff hpc).mp hb.2
  simp only [stop?, hq, hmem, Bool.false_eq_true, if_false, if_true]

theorem Debugger.breaksAt_congr {d d' : Debugger} (h : d.clearLast = d'.clearLast) (m : Machine) :
    d.BreaksAt m ↔ d'.BreaksAt m := by
  have hb : d.clearLast.breakpoints = d'.clearLast.breakpoints := by rw [h]
  have hb : d.breakpoints = d'.breakpoints := hb
  simp only [BreaksAt, hasBreakpoint, hb]

namespace Session

variable {s s' : Session} {budget : Int} {j k : Nat} {event : Event} {e e' : Engine}
  {a : Option Instruction} {frames : Int} {stop : Bool}

/-- The engine in which cycle `j` of frame `i` begins. -/
def cycleAt (s : Session) (frames : Int) (stop : Bool) (i j : Nat) : Option Engine :=
  (frameStarts stop frames.toNat s)[i]?.bind fun t =>
    (t.runStretches Settings.cyclesPerTick).flatten[j]?

/-- A call never runs through a breakpoint. -/
structure HaltsAtBreakpoints (s : Session) (frames : Int) (stop : Bool) : Prop where
  /-- No instruction begins at a breakpoint but the very first one. -/
  begins : ∀ i j e, s.cycleAt frames stop i j = some e → 0 < i ∨ 0 < j →
    ¬s.debugger.BreaksAt e.machine
  /-- A cycle that comes to a breakpoint ends the call there if a cycle or frame is left. -/
  returns : ∀ i j e a e', s.cycleAt frames stop i j = some e → Engine.step e = .ok a e' →
    s.debugger.BreaksAt e'.machine → j + 1 < Settings.cyclesPerTick ∨ i + 1 < frames.toNat →
    ∃ s', runFrames frames stop .debugger s = .ok (Debugger.atBreakpoint e'.machine.pc) s' ∧
      s'.engine = e'

/-- The last cycle of a frame comes to a breakpoint, and another frame is to follow. -/
def Slips (s : Session) (frames : Int) (stop : Bool) : Prop :=
  ∃ i e a e', i + 1 < frames.toNat ∧
    s.cycleAt frames stop i (Settings.cyclesPerTick - 1) = some e ∧ Engine.step e = .ok a e' ∧
    s.debugger.BreaksAt e'.machine

/-! ## One frame -/

theorem begun_getElem (he : (s.begun k event)[j]? = some e) :
    e = s.engine.after j ∧ (j < k ∨ j = k ∧ event.isError = true) := by
  obtain ⟨hj, he⟩ := List.getElem?_eq_some_iff.mp he
  simp only [begun, List.getElem_map, List.getElem_range] at he
  refine ⟨he.symm, ?_⟩
  simp only [begun, List.length_map, List.length_range] at hj
  split at hj
  · rename_i herr
    obtain hj | hj := Nat.lt_succ_iff_lt_or_eq.mp hj
    · exact .inl hj
    · exact .inr ⟨hj, herr⟩
  · exact .inl hj

/-- The cycle after the last completed one fails if it begins. -/
theorem RunEnds.step_of_isError (hend : s.RunEnds budget k event s')
    (herr : event.isError = true) :
    (s.skips budget ≤ k → s.debugger.clearLast.Allows (s.engine.after k).machine) ∧
      (s.engine.after k).completes = false := by
  cases hend with
  | spent => cases herr
  | waits => cases herr
  | stopped _ _ _ hs =>
    rw [Debugger.isError_of_stop? hs] at herr
    cases herr
  | fails _ _ ha hs => exact ⟨ha, Engine.completes_of_error hs⟩

theorem RunEnds.not_breaksAt (hend : s.RunEnds budget k event s') (hdone : s.Completes budget k)
    (h : s.machine.WellFormed) (hj : 0 < j) (he : (s.begun k event)[j]? = some e) :
    ¬s.debugger.BreaksAt e.machine := by
  obtain ⟨rfl, hjk⟩ := begun_getElem he
  have hskip := s.skips_le_one budget
  rintro ⟨hw, hb⟩
  rcases hjk with hjk | ⟨rfl, herr⟩
  · exact not_hasBreakpoint_of_allows h (hdone.allowed j hjk (by omega)) hw hb
  · exact not_hasBreakpoint_of_allows h ((hend.step_of_isError herr).1 (by omega)) hw hb

/-- A cycle of a run that comes to a breakpoint is the last that begins. -/
theorem RunEnds.last_of_breaksAt (hend : s.RunEnds budget k event s')
    (hdone : s.Completes budget k) (h : s.machine.WellFormed)
    (he : (s.begun k event)[j]? = some e) (hs : Engine.step e = .ok a e')
    (hb : s.debugger.BreaksAt e'.machine) :
    j + 1 = k ∧ e' = s.engine.after k ∧ event.isError = false := by
  obtain ⟨rfl, hjk⟩ := begun_getElem he
  obtain rfl : s.engine.after (j + 1) = e' := Engine.next_of_ok hs
  have hskip := s.skips_le_one budget
  have hlt : j < k := by
    rcases hjk with hjk | ⟨rfl, herr⟩
    · exact hjk
    · have hc := (hend.step_of_isError herr).2
      rw [Engine.completes_of_ok hs] at hc
      cases hc
  have hlast : ¬j + 1 < k := by
    intro hlt
    exact not_hasBreakpoint_of_allows h (hdone.allowed _ hlt (by omega)) hb.1 hb.2
  obtain rfl : j + 1 = k := by omega
  refine ⟨rfl, rfl, ?_⟩
  cases herr : event.isError with
  | false => rfl
  | true =>
    have ha := (hend.step_of_isError herr).1 (by omega)
    exact absurd hb.2 (not_hasBreakpoint_of_allows h ha hb.1)

theorem RunEnds.stops_of_breaksAt (hend : s.RunEnds budget k event s')
    (hdone : s.Completes budget k) (h : s.machine.WellFormed) (hq : s.debugger.requested = false)
    (he : (s.begun k event)[j]? = some e) (hs : Engine.step e = .ok a e')
    (hb : s.debugger.BreaksAt e'.machine) (hj : j + 1 < budget.toNat) :
    event = Debugger.atBreakpoint e'.machine.pc ∧ s'.engine = e' := by
  obtain ⟨rfl, rfl, herr⟩ := hend.last_of_breaksAt hdone h he hs hb
  cases hend with
  | spent hk => omega
  | waits _ hw =>
    rw [hb.1] at hw
    cases hw
  | stopped _ _ _ hstop =>
    have hpc := (Engine.wellFormed_after h (j + 1)).pc_lt
    have hq : s.debugger.clearLast.requested = false := hq
    have hb : s.debugger.clearLast.BreaksAt (s.engine.after (j + 1)).machine := hb
    rw [Debugger.stop?_of_breaksAt hpc hq hb] at hstop
    cases hstop
    exact ⟨rfl, rfl⟩
  | fails => cases herr

theorem RunEnds.goesOn_of_breaksAt (hend : s.RunEnds budget k event s')
    (hdone : s.Completes budget k) (h : s.machine.WellFormed)
    (he : (s.begun k event)[j]? = some e) (hs : Engine.step e = .ok a e')
    (hb : s.debugger.BreaksAt e'.machine) (hj : j + 1 = budget.toNat) (stop : Bool) :
    goesOn stop event = true ∧ s'.engine = e' := by
  obtain ⟨rfl, rfl, -⟩ := hend.last_of_breaksAt hdone h he hs hb
  cases hend with
  | spent => exact ⟨rfl, rfl⟩
  | waits _ hw =>
    rw [hb.1] at hw
    cases hw
  | stopped hk => omega
  | fails hk => omega

/-- If the frames go on at a breakpoint, the last cycle of the run has come to it. -/
theorem RunEnds.slip_of_goesOn (hend : s.RunEnds budget k event s') (hdone : s.Completes budget k)
    (hgo : goesOn stop event = true) (hb : s.debugger.BreaksAt s'.machine) (hpos : 0 < budget) :
    ∃ e a, (s.begun k event)[budget.toNat - 1]? = some e ∧ Engine.step e = .ok a s'.engine := by
  cases hend with
  | spent hk =>
    obtain ⟨a, hs⟩ := hdone.step (k - 1) (by omega)
    have hlast : k - 1 + 1 = k := by omega
    rw [hlast] at hs
    refine ⟨_, a, ?_, hs⟩
    have hlt : k - 1 < k := by omega
    simp only [begun, Event.isError, budgetSpent, List.getElem?_map, ← hk]
    simp [List.getElem?_range hlt]
  | waits _ hw =>
    have hw' := hb.1
    rw [machine, hw] at hw'
    cases hw'
  | stopped _ _ _ hs =>
    obtain hr | hr | hr := Debugger.reason_of_stop? hs <;> simp [goesOn, hr] at hgo
  | fails => cases hgo

/-! ## A call of frames -/

theorem frameStarts_breaksAt {n i : Nat} {t : Session} (h : s.machine.WellFormed)
    (ht : (frameStarts stop n s)[i]? = some t) (m : Machine) :
    t.debugger.BreaksAt m ↔ s.debugger.BreaksAt m :=
  Debugger.breaksAt_congr (frameStarts_wellFormed h ht).2 m

theorem run_of_cycleAt {i : Nat} (h : s.machine.WellFormed)
    (he : s.cycleAt frames stop i j = some e) :
    ∃ t k event s', (frameStarts stop frames.toNat s)[i]? = some t ∧ t.machine.WellFormed ∧
      run Settings.cyclesPerTick .debugger t = .ok event s' ∧
      t.Completes Settings.cyclesPerTick k ∧ t.RunEnds Settings.cyclesPerTick k event s' ∧
      (t.begun k event)[j]? = some e := by
  obtain ⟨t, ht, he⟩ := Option.bind_eq_some_iff.mp he
  have hw := (frameStarts_wellFormed h ht).1
  obtain ⟨k, event, s', hrun, hdone, hend, hbegun⟩ := run_ends hw Settings.cyclesPerTick
  rw [hbegun] at he
  exact ⟨t, k, event, s', ht, hw, hrun, hdone, hend, he⟩

theorem runStretches_of_breaksAt (hb : s.debugger.BreaksAt s.machine) (hpos : 0 < budget) :
    (s.runStretches budget).flatten[0]? = some s.engine := by
  rw [runStretches, if_pos ⟨hpos, hb.2⟩]
  rfl

/-- A frame that begins at a breakpoint follows one that slips. -/
theorem slips_of_frameStarts {i : Nat} {t : Session} (h : s.machine.WellFormed)
    (ht : (frameStarts stop frames.toNat s)[i + 1]? = some t)
    (hb : s.debugger.BreaksAt t.machine) : s.Slips frames stop := by
  have hi := lt_of_frameStarts ht
  obtain ⟨u, event, s', hu, hrun, hgo, rfl⟩ := frameStarts_succ ht
  obtain ⟨k, event', s'', hrun', hdone, hend, hbegun⟩ :=
    run_ends (frameStarts_wellFormed h hu).1 Settings.cyclesPerTick
  rw [hrun'] at hrun
  cases hrun
  obtain ⟨e, a, he, hs⟩ := hend.slip_of_goesOn hdone hgo
    ((frameStarts_breaksAt h hu _).mpr hb) (by decide)
  refine ⟨i, e, a, s'.engine, hi, ?_, hs, hb⟩
  rw [cycleAt, hu, Option.bind_some, hbegun]
  exact he

/-- After a slip the next frame begins at the breakpoint. -/
theorem Slips.begins (hslip : s.Slips frames stop) (h : s.machine.WellFormed) :
    ∃ i e, s.cycleAt frames stop (i + 1) 0 = some e ∧ s.debugger.BreaksAt e.machine := by
  obtain ⟨i, e, a, e', hi, he, hs, hb⟩ := hslip
  obtain ⟨t, k, event, s', ht, hw, hrun, hdone, hend, he⟩ := run_of_cycleAt h he
  obtain ⟨hgo, rfl⟩ := hend.goesOn_of_breaksAt hdone hw he hs
    ((frameStarts_breaksAt h ht _).mpr hb) (by decide) stop
  have hnext := frameStarts_next ht hrun hgo hi
  -- a timer tick moves neither the program counter nor a key wait
  have hb : s.debugger.BreaksAt s'.tick.machine := hb
  refine ⟨i, s'.tick.engine, ?_, hb⟩
  rw [cycleAt, hnext, Option.bind_some]
  exact runStretches_of_breaksAt ((frameStarts_breaksAt h hnext _).mpr hb) (by decide)

theorem begins_of_not_slips (h : s.machine.WellFormed) (hslip : ¬s.Slips frames stop) {i : Nat}
    (he : s.cycleAt frames stop i j = some e) (hij : 0 < i ∨ 0 < j) :
    ¬s.debugger.BreaksAt e.machine := by
  intro hb
  obtain ⟨t, k, event, s', ht, hw, -, hdone, hend, hbegun⟩ := run_of_cycleAt h he
  by_cases hj : 0 < j
  · exact hend.not_breaksAt hdone hw hj hbegun ((frameStarts_breaksAt h ht _).mpr hb)
  · obtain rfl : j = 0 := by omega
    obtain ⟨i, rfl⟩ := Nat.exists_eq_succ_of_ne_zero (by omega : i ≠ 0)
    obtain ⟨rfl, -⟩ := begun_getElem hbegun
    exact hslip (slips_of_frameStarts h ht hb)

theorem returns_of_not_slips (h : s.machine.WellFormed) (hq : s.debugger.requested = false)
    (hslip : ¬s.Slips frames stop) {i : Nat} (he : s.cycleAt frames stop i j = some e)
    (hs : Engine.step e = .ok a e') (hb : s.debugger.BreaksAt e'.machine)
    (hleft : j + 1 < Settings.cyclesPerTick ∨ i + 1 < frames.toNat) :
    ∃ s', runFrames frames stop .debugger s = .ok (Debugger.atBreakpoint e'.machine.pc) s' ∧
      s'.engine = e' := by
  obtain ⟨t, k, event, s', ht, hw, hrun, hdone, hend, hbegun⟩ := run_of_cycleAt h he
  have hb' := (frameStarts_breaksAt h ht _).mpr hb
  by_cases hj : j + 1 < Settings.cyclesPerTick
  · have hd := (frameStarts_wellFormed h ht).2
    have hq : t.debugger.clearLast.requested = false := by
      rw [hd]
      exact hq
    obtain ⟨rfl, rfl⟩ := hend.stops_of_breaksAt hdone hw hq hbegun hs hb' (by omega)
    exact ⟨s', runFramesLeft_of_frame ht hrun rfl frames, rfl⟩
  · obtain ⟨hjk, -⟩ := hend.last_of_breaksAt hdone hw hbegun hs hb'
    have hle := hdone.le_budget
    obtain rfl : j = Settings.cyclesPerTick - 1 := by omega
    exact absurd ⟨i, e, a, e', by omega, he, hs, hb⟩ hslip

/-- **A call of frames never runs through a breakpoint, unless it slips** at a frame boundary. -/
theorem haltsAtBreakpoints_iff (s : Session) (h : s.machine.WellFormed)
    (hq : s.debugger.requested = false) (frames : Int) (stop : Bool) :
    s.HaltsAtBreakpoints frames stop ↔ ¬s.Slips frames stop := by
  constructor
  · intro hall hslip
    obtain ⟨i, e, he, hb⟩ := hslip.begins h
    exact hall.begins (i + 1) 0 e he (.inl (Nat.succ_pos i)) hb
  · intro hslip
    constructor
    · intro i j e he hij
      exact begins_of_not_slips h hslip he hij
    · intro i j e a e' he hs hb hleft
      exact returns_of_not_slips h hq hslip he hs hb hleft

/-- Eleven loads and an addition, and a breakpoint at the addition. -/
def breakAtTwelfth : Session where
  engine :=
    { machine := { Machine.fresh with
        memory := Memory.fresh.store Memory.programStart
          [0x61, 0x01, 0x62, 0x02, 0x63, 0x03, 0x64, 0x04, 0x65, 0x05, 0x66, 0x06, 0x67, 0x07,
            0x68, 0x08, 0x69, 0x09, 0x6A, 0x0A, 0x6B, 0x0B, 0x70, 0x01, 0x12, 0x18] }
      random := .ofBytes #[]
      trace := false
      notes := #[] }
  debugger := Debugger.fresh.addBreakpoint 0x216
  record := #[]
  cycles := 0

theorem breakAtTwelfth_iff :
    breakAtTwelfth.machine.WellFormed ∧ breakAtTwelfth.debugger.requested = false ∧
      (breakAtTwelfth.HaltsAtBreakpoints 2 false ↔ ¬breakAtTwelfth.Slips 2 false) := by
  have hw : breakAtTwelfth.machine.WellFormed := Machine.wellFormed_fresh.setMemory _
  exact ⟨hw, rfl, haltsAtBreakpoints_iff breakAtTwelfth hw rfl 2 false⟩

/-- The second frame begins with the addition. -/
theorem breakAtTwelfth_runs_through : ¬breakAtTwelfth.HaltsAtBreakpoints 2 false := by
  intro hall
  have hany : ((breakAtTwelfth.cycleAt 2 false 1 0).any fun e =>
      breakAtTwelfth.debugger.BreaksAt e.machine) = true := by decide +kernel
  obtain ⟨e, he, hb⟩ := (Option.any_eq_true _ _).mp hany
  exact hall.begins 1 0 e he (.inl Nat.one_pos) (of_decide_eq_true hb)

end Session
end Chip8
