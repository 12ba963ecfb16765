import Chip8.Proofs.Stepping
import Chip8.Session

/-!
# Chip8.Proofs.Run

What a run under the debugger does, said once. `Debugger.stop?` is the event with which the debugger
stops before an instruction. `Session.RunEnds` lists the four ways in which a run ends, each with the
number of cycles it completed, its event and the session it leaves; `run_ends` says that within the
bounds there are no others, and that the cycles of a run are those of plain stepping.

A stretch is a list of the engines in which cycles begin, in order: those of one single step or of one
bulk run. `Session.runStretches` are the stretches of a run.
-/

namespace Chip8

namespace Debugger

variable {d : Debugger} {m : Machine}

/-- The event with which a run stops before an instruction. -/
def stop? (d : Debugger) (m : Machine) : Option Event :=
  if d.requested then some (interrupted m.pc)
  else if m.pc ∈ d.breakpoints then some (atBreakpoint m.pc)
  else (d.firstHolding? m).map (onCondition m.pc)

/-- The debugger lets a cycle begin; it is not asked while a key is awaited. -/
def Allows (d : Debugger) (m : Machine) : Prop :=
  m.isAwaiting = true ∨ d.stop? m = none

theorem check_eq (d : Debugger) (m : Machine) :
    d.check m m.pc = match d.stop? m with
      | some event => (false, { d with requested := false, last := some event })
      | none => (true, d) := by
  have hany : (d.breakpoints.any fun a => (a : Int) = m.pc) = true ↔ m.pc ∈ d.breakpoints := by
    simp only [List.any_eq_true, decide_eq_true_eq, Int.natCast_inj, exists_eq_right]
  obtain ⟨breakpoints, conditions, requested, last⟩ := d
  cases requested with
  | true => rfl
  | false =>
    simp only [check, stop?, hany, Bool.false_eq_true, if_false]
    split
    · rfl
    · cases firstHolding? ⟨breakpoints, conditions, false, last⟩ m <;> rfl

theorem hasBreakpoint_iff {a : Nat} (h : a < 0x1000) :
    d.hasBreakpoint a = true ↔ a ∈ d.breakpoints := by
  simp only [hasBreakpoint, Memory.wrap_of_lt h, List.contains_iff_mem]

theorem stop?_eq_none (h : d.stop? m = none) : d.requested = false ∧ m.pc ∉ d.breakpoints ∧
    d.firstHolding? m = none := by
  simp only [stop?] at h
  split at h
  · cases h
  · split at h
    · cases h
    · exact ⟨by simpa using ‹¬d.requested = true›, ‹_›, Option.map_eq_none_iff.mp h⟩

/-- The three events that stop a run, and when they do. -/
theorem stop?_cases {event : Event} (h : d.stop? m = some event) :
    d.requested = true ∧ event = interrupted m.pc ∨
    m.pc ∈ d.breakpoints ∧ event = atBreakpoint m.pc ∨
    m.pc ∉ d.breakpoints ∧ ∃ c, d.firstHolding? m = some c ∧ event = onCondition m.pc c := by
  simp only [stop?] at h
  split at h
  · rename_i hq
    cases h
    exact .inl ⟨hq, rfl⟩
  · split at h
    · rename_i hp
      cases h
      exact .inr (.inl ⟨hp, rfl⟩)
    · rename_i hp
      obtain ⟨c, hc, rfl⟩ := Option.map_eq_some_iff.mp h
      exact .inr (.inr ⟨hp, c, hc, rfl⟩)

/-- The events that stop a run are neither spent budgets nor key waits nor faults. -/
theorem reason_of_stop? {event : Event} (h : d.stop? m = some event) :
    event.reason = .userInterrupt ∨ event.reason = .pcBreakpoint ∨
      event.reason = .registerCondition := by
  obtain ⟨-, rfl⟩ | ⟨-, rfl⟩ | ⟨-, c, -, rfl⟩ := stop?_cases h
  · exact .inl rfl
  · exact .inr (.inl rfl)
  · exact .inr (.inr rfl)

theorem isError_of_stop? {event : Event} (h : d.stop? m = some event) : event.isError = false := by
  obtain hr | hr | hr := reason_of_stop? h <;> simp [Event.isError, hr]

end Debugger

section Hook

variable {record record' : Array (Nat × Nat)} {d d' : Debugger} {m : Machine}

theorem ask_of_stop {event : Event} (hw : m.isAwaiting = false) (h : d.stop? m = some event) :
    Watch.debugger.hook.ask m (d, record) =
      (false, { d with requested := false, last := some event }, record) := by
  simp only [Hook.ask, hw, Watch.hook, Debugger.check_eq, h, Bool.false_eq_true, if_false]

theorem ask_of_allows (h : d.Allows m) :
    Watch.debugger.hook.ask m (d, record) = (true, d, record) := by
  cases hw : m.isAwaiting with
  | true => simp only [Hook.ask, hw, if_true]
  | false =>
    have hs : d.stop? m = none := h.resolve_left (by simp [hw])
    simp only [Hook.ask, hw, Watch.hook, Debugger.check_eq, hs, Bool.false_eq_true, if_false]

/-- The debugger lets a cycle begin and stays as it is, or stops the run. -/
theorem ask_debugger (d : Debugger) (m : Machine) (record : Array (Nat × Nat)) :
    (d.Allows m ∧ Watch.debugger.hook.ask m (d, record) = (true, d, record)) ∨
      ∃ event, m.isAwaiting = false ∧ d.stop? m = some event ∧
        Watch.debugger.hook.ask m (d, record) =
          (false, { d with requested := false, last := some event }, record) := by
  by_cases h : d.Allows m
  · exact .inl ⟨h, ask_of_allows h⟩
  · obtain ⟨hw, hs⟩ := not_or.mp h
    obtain ⟨event, hs⟩ := Option.ne_none_iff_exists'.mp hs
    have hw : m.isAwaiting = false := by simpa using hw
    exact .inr ⟨event, hw, hs, ask_of_stop hw hs⟩

theorem allows_of_ask (h : Watch.debugger.hook.ask m (d, record) = (true, d', record')) :
    d.Allows m ∧ d' = d ∧ record' = record := by
  obtain ⟨ha, hk⟩ | ⟨event, -, -, hk⟩ := ask_debugger d m record <;> rw [hk] at h <;> cases h
  exact ⟨ha, rfl, rfl⟩

theorem stop_of_ask (h : Watch.debugger.hook.ask m (d, record) = (false, d', record')) :
    ∃ event, m.isAwaiting = false ∧ d.stop? m = some event ∧
      d' = { d with requested := false, last := some event } ∧ record' = record := by
  obtain ⟨ha, hk⟩ | ⟨event, hw, hs, hk⟩ := ask_debugger d m record <;> rw [hk] at h <;> cases h
  exact ⟨event, hw, hs, rfl, rfl⟩

theorem Engine.Cycles.debugger {k : Nat} {e e' : Engine}
    (h : Cycles Watch.debugger.hook k e (d, record) e' (d', record')) :
    (∀ j < k, d.Allows (e.after j).machine) ∧ d' = d ∧ record' = record := by
  generalize hs : (d, record) = s at h
  generalize hs' : (d', record') = s' at h
  induction h with
  | refl =>
    rw [← hs] at hs'
    cases hs'
    exact ⟨fun j hj => by omega, rfl, rfl⟩
  | @cons k e e₁ e₂ s s₁ s₂ ins ha hstep hc ih =>
    subst hs
    obtain ⟨hd, hs₁⟩ : d.Allows e.machine ∧ s₁ = (d, record) := by
      obtain ⟨d₁, record₁⟩ := s₁
      obtain ⟨hd, rfl, rfl⟩ := allows_of_ask ha
      exact ⟨hd, rfl⟩
    obtain ⟨hall, hd', hr'⟩ := ih hs₁.symm hs'
    refine ⟨fun j hj => ?_, hd', hr'⟩
    cases j with
    | zero => exact hd
    | succ j =>
      rw [← after_next, next_of_ok hstep]
      exact hall j (by omega)

end Hook

namespace Session

variable {s s' : Session} {budget : Int}

/-- How a single step ends: its event, and the session it leaves. -/
inductive StepEnds (s : Session) : Event → Session → Prop where
  | completes {ins : Instruction} : Engine.step s.engine = .ok (some ins) (s.engine.after 1) →
      StepEnds s (stepped (s.engine.after 1).machine.pc)
        ⟨s.engine.after 1, s.debugger, s.record, s.cycles + 1⟩
  | waits : Engine.step s.engine = .ok none (s.engine.after 1) →
      StepEnds s (awaitingKey s.engine.machine.pc)
        ⟨s.engine.after 1, s.debugger, s.record, s.cycles + 1⟩
  | fails {f : Fault} : Engine.step s.engine = .error (.fault f) (s.engine.after 1) →
      StepEnds s (faulted s.engine.machine.pc f)
        ⟨(s.engine.after 1).noted [.stopped f], s.debugger, s.record, s.cycles⟩

/-- How many first cycles of a run begin without asking the debugger: one over a breakpoint. -/
def skips (s : Session) (budget : Int) : Nat :=
  if 0 < budget ∧ s.debugger.hasBreakpoint s.machine.pc then 1 else 0

/-- A run completes `k` cycles of plain stepping: only the last may end awaiting a key, and the
debugger lets each begin but one over a breakpoint. -/
structure Completes (s : Session) (budget : Int) (k : Nat) : Prop where
  le_budget : k ≤ budget.toNat
  step : ∀ j < k, ∃ a, Engine.step (s.engine.after j) = .ok a (s.engine.after (j + 1))
  instruction : ∀ j, j + 1 < k → (s.engine.after (j + 1)).machine.isAwaiting = false
  allowed : ∀ j < k, s.skips budget ≤ j →
    s.debugger.clearLast.Allows (s.engine.after j).machine

inductive RunEnds (s : Session) (budget : Int) (k : Nat) : Event → Session → Prop where
  /-- The budget is spent. -/
  | spent : k = budget.toNat → (s.engine.after k).machine.isAwaiting = false →
      RunEnds s budget k (budgetSpent (s.engine.after k).machine.pc budget)
        ⟨s.engine.after k, s.debugger.clearLast, s.record, s.cycles + k⟩
  /-- A key is awaited after the last cycle, or all along if no cycle was to run. -/
  | waits : 0 < k ∨ budget ≤ 0 → (s.engine.after k).machine.isAwaiting = true →
      RunEnds s budget k (awaitingKey (s.engine.after k).machine.pc)
        ⟨s.engine.after k, s.debugger.clearLast, s.record, s.cycles + k⟩
  /-- The debugger stops the run. -/
  | stopped {event : Event} : k < budget.toNat → s.skips budget ≤ k →
      (s.engine.after k).machine.isAwaiting = false →
      s.debugger.clearLast.stop? (s.engine.after k).machine = some event →
      RunEnds s budget k event
        ⟨s.engine.after k, { s.debugger with requested := false, last := some event }, s.record,
          s.cycles + k⟩
  /-- The next cycle fails. Of the cycles before it only one over a breakpoint is counted. -/
  | fails {f : Fault} : k < budget.toNat →
      (0 < k → (s.engine.after k).machine.isAwaiting = false) →
      (s.skips budget ≤ k → s.debugger.clearLast.Allows (s.engine.after k).machine) →
      Engine.step (s.engine.after k) = .error (.fault f) (s.engine.after (k + 1)) →
      RunEnds s budget k (faulted (s.engine.after k).machine.pc f)
        ⟨(s.engine.after (k + 1)).noted [.stopped f], s.debugger.clearLast, s.record,
          s.cycles + min k (s.skips budget)⟩

def bulkStretch (cycles : Int) (s : Session) : List Engine :=
  Engine.trail Watch.debugger.hook cycles.toNat s.engine (s.debugger, s.record)

/-- The stretches of a run: the cycle over a breakpoint is one of its own. -/
def runStretches (budget : Int) (s : Session) : List (List Engine) :=
  if 0 < budget ∧ s.debugger.hasBreakpoint s.machine.pc then
    [s.engine] ::
      match step (s.control Debugger.clearLast) with
      | .ok event s' => if event.reason = .step then [bulkStretch (budget - 1) s'] else []
      | .error _ _ => []
  else [bulkStretch budget (s.control Debugger.clearLast)]

/-- The engines in which the cycles of a run begin that completes `k` of them; one more begins if the
run fails. -/
def begun (s : Session) (k : Nat) (event : Event) : List Engine :=
  (List.range (if event.isError then k + 1 else k)).map s.engine.after

theorem step_session_eq (s : Session) :
    step s = match Engine.step s.engine with
      | .ok (some _) e => .ok (stepped e.machine.pc) { s with engine := e, cycles := s.cycles + 1 }
      | .ok none e =>
        .ok (awaitingKey s.machine.pc) { s with engine := e, cycles := s.cycles + 1 }
      | .error f e => fail f { s with engine := e } := rfl

theorem runBulk_eq (watch : Watch) (budget cycles : Int) (s : Session) :
    runBulk watch budget cycles s =
      match Engine.execute watch.hook cycles.toNat s.engine (s.debugger, s.record) with
      | .ok done (e, d, record) =>
        .ok (outcome budget ⟨e, d, record, s.cycles + done⟩) ⟨e, d, record, s.cycles + done⟩
      | .error f (e, d, record) => fail f ⟨e, d, record, s.cycles⟩ := rfl

theorem run_eq (watch : Watch) (budget : Int) (s : Session) :
    run budget watch s =
      if 0 < budget ∧ s.debugger.hasBreakpoint s.machine.pc then
        match step (s.control Debugger.clearLast) with
        | .ok event s' =>
          if event.reason = .step then runBulk watch budget (budget - 1) s' else .ok event s'
        | .error d s' => .error d s'
      else runBulk watch budget budget (s.control Debugger.clearLast) := by
  have hrun : run budget watch s =
      (if 0 < budget ∧ s.debugger.hasBreakpoint s.machine.pc then
        (do
          let event ← step
          if event.reason = .step then runBulk watch budget (budget - 1) else return event)
      else runBulk watch budget budget) (s.control Debugger.clearLast) := rfl
  rw [hrun]
  split
  · simp only [bind, EStateM.bind]
    cases step (s.control Debugger.clearLast) with
    | ok event s' => dsimp only; split <;> rfl
    | error d s' => rfl
  · rfl

section Outcome

variable {e : Engine} {d : Debugger} {record : Array (Nat × Nat)} {cycles : Nat}

theorem outcome_of_stop {event : Event} (h : d.last = some event) :
    outcome budget ⟨e, d, record, cycles⟩ = event := by
  simp only [outcome, h]

theorem outcome_of_awaiting (hw : e.machine.isAwaiting = true) :
    outcome budget ⟨e, d.clearLast, record, cycles⟩ = awaitingKey e.machine.pc := by
  simp only [outcome, Debugger.clearLast, machine, hw, if_true]

theorem outcome_of_spent (hw : e.machine.isAwaiting = false) :
    outcome budget ⟨e, d.clearLast, record, cycles⟩ = budgetSpent e.machine.pc budget := by
  simp only [outcome, Debugger.clearLast, machine, hw, Bool.false_eq_true, if_false]

end Outcome

theorem fail_of_step {e e' : Engine} (h : e.machine.WellFormed) {f : Failure}
    (hs : Engine.step e = .error f e') (d : Debugger) (record : Array (Nat × Nat))
    (cycles : Nat) :
    ∃ fault, f = .fault fault ∧
      fail f ⟨e', d, record, cycles⟩ =
        .ok (faulted e.machine.pc fault) ⟨e'.noted [.stopped fault], d, record, cycles⟩ := by
  obtain ⟨cause, -, rfl, rfl⟩ := Engine.step_error h hs
  exact ⟨_, rfl, rfl⟩

theorem step_ends (h : s.machine.WellFormed) :
    ∃ event s', step s = .ok event s' ∧ s.StepEnds event s' := by
  rw [step_session_eq]
  cases hs : Engine.step s.engine with
  | ok a e =>
    obtain rfl : s.engine.after 1 = e := Engine.next_of_ok hs
    cases a with
    | some ins => exact ⟨_, _, rfl, .completes hs⟩
    | none => exact ⟨_, _, rfl, .waits hs⟩
  | error f e =>
    obtain rfl : s.engine.after 1 = e := Engine.next_of_error hs
    obtain ⟨fault, rfl, hfail⟩ := fail_of_step h hs s.debugger s.record s.cycles
    exact ⟨_, _, hfail, .fails hs⟩

theorem skips_le (s : Session) (budget : Int) : s.skips budget ≤ budget.toNat := by
  simp only [skips]
  split <;> omega

theorem skips_le_one (s : Session) (budget : Int) : s.skips budget ≤ 1 := by
  simp only [skips]
  split <;> omega

theorem not_hasBreakpoint_of_allows (h : s.machine.WellFormed) {j : Nat}
    (hd : s.debugger.clearLast.Allows (s.engine.after j).machine)
    (hw : (s.engine.after j).machine.isAwaiting = false) :
    ¬s.debugger.hasBreakpoint (s.engine.after j).machine.pc = true := by
  have hs := hd.resolve_left (by simp [hw])
  rw [Debugger.hasBreakpoint_iff (Engine.wellFormed_after h j).pc_lt]
  exact (Debugger.stop?_eq_none hs).2.1

theorem Completes.succ {k : Nat} (h : s.Completes budget k) (hk : k < budget.toNat)
    (hw : 0 < k → (s.engine.after k).machine.isAwaiting = false)
    (hd : s.debugger.clearLast.Allows (s.engine.after k).machine) {a : Option Instruction}
    (hs : Engine.step (s.engine.after k) = .ok a (s.engine.after (k + 1))) :
    s.Completes budget (k + 1) where
  le_budget := hk
  step j hj := by
    obtain hj | rfl := Nat.lt_succ_iff_lt_or_eq.mp hj
    · exact h.step j hj
    · exact ⟨a, hs⟩
  instruction j hj := by
    obtain hj | rfl := Nat.lt_succ_iff_lt_or_eq.mp hj
    · exact h.instruction j hj
    · exact hw (Nat.succ_pos j)
  allowed j hj hp := by
    obtain hj | rfl := Nat.lt_succ_iff_lt_or_eq.mp hj
    · exact h.allowed j hj hp
    · exact hd

/-- Cycles in a row after those that the debugger is not asked about. -/
theorem completes_of_cycles {k : Nat} {e : Engine} {p : Debugger × Array (Nat × Nat)}
    (hfirst : ∀ j < s.skips budget, ∃ ins,
      Engine.step (s.engine.after j) = .ok (some ins) (s.engine.after (j + 1)))
    (hk : s.skips budget + k ≤ budget.toNat)
    (hc : Engine.Cycles Watch.debugger.hook k (s.engine.after (s.skips budget))
      (s.debugger.clearLast, s.record) e p) :
    s.Completes budget (s.skips budget + k) ∧
      (0 < s.skips budget + k →
        (s.engine.after (s.skips budget + k)).machine.isAwaiting = false) := by
  obtain ⟨d, record⟩ := p
  have hall : ∀ j < s.skips budget + k, ∃ ins,
      Engine.step (s.engine.after j) = .ok (some ins) (s.engine.after (j + 1)) := by
    intro j hj
    by_cases hp : j < s.skips budget
    · exact hfirst j hp
    · obtain ⟨i, rfl⟩ := Nat.exists_eq_add_of_le (Nat.le_of_not_lt hp)
      obtain ⟨ins, hs⟩ := hc.step_after i (by omega)
      exact ⟨ins, by rwa [Nat.add_assoc, Engine.after_add, Engine.after_add]⟩
  have hw : ∀ j < s.skips budget + k, (s.engine.after (j + 1)).machine.isAwaiting = false := by
    intro j hj
    obtain ⟨ins, hs⟩ := hall j hj
    exact Engine.isAwaiting_of_step hs
  refine ⟨⟨hk, ?_, ?_, ?_⟩, ?_⟩
  · intro j hj
    obtain ⟨ins, hs⟩ := hall j hj
    exact ⟨some ins, hs⟩
  · intro j hj
    exact hw j (by omega)
  · intro j hj hp
    obtain ⟨i, rfl⟩ := Nat.exists_eq_add_of_le hp
    rw [Engine.after_add]
    exact hc.debugger.1 i (by omega)
  · intro hpos
    obtain ⟨j, hj⟩ := Nat.exists_eq_add_of_le' hpos
    rw [hj]
    exact hw j (by omega)

/-- Where cycles in a row come to, and the trail that they leave behind. -/
theorem position_of_cycles {k : Nat} {e : Engine} {p : Debugger × Array (Nat × Nat)}
    (hc : Engine.Cycles Watch.debugger.hook k (s.engine.after (s.skips budget))
      (s.debugger.clearLast, s.record) e p) :
    e = s.engine.after (s.skips budget + k) ∧ p = (s.debugger.clearLast, s.record) ∧
      ∀ left, (List.range (s.skips budget)).map s.engine.after ++
          Engine.trail Watch.debugger.hook (k + left) (s.engine.after (s.skips budget))
            (s.debugger.clearLast, s.record) =
        (List.range (s.skips budget + k)).map s.engine.after ++
          Engine.trail Watch.debugger.hook left e p := by
  obtain ⟨d, record⟩ := p
  obtain ⟨-, rfl, rfl⟩ := hc.debugger
  refine ⟨?_, rfl, ?_⟩
  · rw [hc.eq_after, Engine.after_add]
  · intro left
    rw [hc.trail_eq left, ← List.append_assoc, Engine.map_after_append]

/-- The bulk part of a run, after the cycle over a breakpoint if there was one. -/
theorem runBulk_ends (h : s.machine.WellFormed)
    (hfirst : ∀ j < s.skips budget, ∃ ins,
      Engine.step (s.engine.after j) = .ok (some ins) (s.engine.after (j + 1))) :
    let t : Session := ⟨s.engine.after (s.skips budget), s.debugger.clearLast, s.record,
      s.cycles + s.skips budget⟩
    ∃ k event s', runBulk .debugger budget (budget - s.skips budget) t = .ok event s' ∧
      s.Completes budget k ∧ s.RunEnds budget k event s' ∧
      (List.range (s.skips budget)).map s.engine.after ++
        bulkStretch (budget - s.skips budget) t = s.begun k event := by
  intro t
  have hskip := s.skips_le budget
  have hcycles (k : Nat) : s.cycles + s.skips budget + (0 + k) = s.cycles + (s.skips budget + k) := by
    omega
  obtain ⟨n, hn⟩ := Nat.exists_eq_add_of_le hskip
  have hleft : (budget - s.skips budget).toNat = n := by omega
  have hb := Engine.execute_bulk Watch.debugger.hook n (s.engine.after (s.skips budget))
    (s.debugger.clearLast, s.record)
  simp only [t, runBulk_eq, bulkStretch, hleft]
  generalize hx : Engine.execute Watch.debugger.hook n (s.engine.after (s.skips budget))
    (s.debugger.clearLast, s.record) = res at hb ⊢
  cases hb with
  | spent hc =>
    obtain ⟨hdone, hw⟩ := completes_of_cycles hfirst (by omega) hc
    obtain ⟨rfl, rfl, htrail⟩ := position_of_cycles hc
    have htrail := (htrail 0).trans (List.append_nil _)
    -- no cycle in a row ends awaiting a key, so a wait is there only if none was to run
    simp only [hcycles, ← hn] at hdone hw htrail ⊢
    cases ha : (s.engine.after budget.toNat).machine.isAwaiting with
    | true =>
      have hpos : ¬0 < budget.toNat := by
        intro hpos
        rw [hw hpos] at ha
        cases ha
      rw [outcome_of_awaiting ha]
      exact ⟨_, _, _, rfl, hdone, .waits (.inr (by omega)) ha, htrail⟩
    | false =>
      rw [outcome_of_spent ha]
      exact ⟨_, _, _, rfl, hdone, .spent rfl ha, htrail⟩
  | @stopped k e₁ p₁ p₂ hk hc ha =>
    obtain ⟨hdone, -⟩ := completes_of_cycles hfirst (by omega) hc
    obtain ⟨rfl, rfl, htrail⟩ := position_of_cycles hc
    obtain ⟨left, rfl⟩ := Nat.exists_eq_add_of_le (Nat.le_of_lt hk)
    obtain ⟨d, record⟩ := p₂
    rw [htrail, Engine.trail_of_stop ha, List.append_nil]
    obtain ⟨event, hw, hstop, rfl, rfl⟩ := stop_of_ask ha
    simp only [hcycles]
    rw [outcome_of_stop rfl]
    refine ⟨_, _, _, rfl, hdone, .stopped (by omega) (by omega) hw hstop, ?_⟩
    rw [begun, Debugger.isError_of_stop? hstop]
    rfl
  | @waits k e₁ e₂ p₁ p₂ hk hc ha hs =>
    obtain ⟨hdone, hw⟩ := completes_of_cycles hfirst (by omega) hc
    obtain ⟨rfl, rfl, htrail⟩ := position_of_cycles hc
    obtain ⟨left, rfl⟩ := Nat.exists_eq_add_of_lt hk
    obtain ⟨d, record⟩ := p₂
    rw [Nat.add_assoc, htrail, Engine.trail_of_wait ha hs, ← Engine.map_after_concat]
    obtain ⟨hd, rfl, rfl⟩ := allows_of_ask ha
    obtain rfl : s.engine.after (s.skips budget + k + 1) = e₂ := Engine.next_of_ok hs
    have haw := Engine.isAwaiting_of_step hs
    simp only [hcycles]
    rw [outcome_of_awaiting haw]
    exact ⟨_, _, _, rfl, hdone.succ (by omega) hw hd hs, .waits (.inl (by omega)) haw, rfl⟩
  | @fails k e₁ e₂ p₁ p₂ f hk hc ha hs =>
    obtain ⟨hdone, hw⟩ := completes_of_cycles hfirst (by omega) hc
    obtain ⟨rfl, rfl, htrail⟩ := position_of_cycles hc
    obtain ⟨left, rfl⟩ := Nat.exists_eq_add_of_lt hk
    obtain ⟨d, record⟩ := p₂
    rw [Nat.add_assoc, htrail, Engine.trail_of_error ha hs, ← Engine.map_after_concat]
    obtain ⟨hd, rfl, rfl⟩ := allows_of_ask ha
    obtain rfl : s.engine.after (s.skips budget + k + 1) = e₂ := Engine.next_of_error hs
    obtain ⟨fault, rfl, hfail⟩ := fail_of_step (Engine.wellFormed_after h _) hs
      s.debugger.clearLast s.record (s.cycles + s.skips budget)
    have hcount : min (s.skips budget + k) (s.skips budget) = s.skips budget := by omega
    have hend : s.RunEnds budget (s.skips budget + k) _ _ := .fails (by omega) hw (fun _ => hd) hs
    rw [hcount] at hend
    exact ⟨_, _, _, hfail, hdone, hend, rfl⟩

/-- **How a run under the debugger ends.** It completes cycles of plain stepping, and begins no
others but one that fails. -/
theorem run_ends (h : s.machine.WellFormed) (budget : Int) :
    ∃ k event s', run budget .debugger s = .ok event s' ∧ s.Completes budget k ∧
      s.RunEnds budget k event s' ∧ (s.runStretches budget).flatten = s.begun k event := by
  simp only [run_eq, runStretches]
  by_cases hp : 0 < budget ∧ s.debugger.hasBreakpoint s.machine.pc
  · -- the cycle over the breakpoint is a single step, and the bulk run has one cycle less
    have hskip : s.skips budget = 1 := if_pos hp
    have hle := s.skips_le budget
    have hc : (s.control Debugger.clearLast).machine.WellFormed := h
    obtain ⟨event, s₁, hstep, hend⟩ := step_ends hc
    rw [if_pos hp, if_pos hp, hstep]
    cases hend with
    | @completes ins hs =>
      have hfirst : ∀ j < s.skips budget, ∃ ins,
          Engine.step (s.engine.after j) = .ok (some ins) (s.engine.after (j + 1)) := by
        intro j hj
        obtain rfl : j = 0 := by omega
        exact ⟨ins, hs⟩
      obtain ⟨k, event, s', hb, hdone, hend, hbegun⟩ := runBulk_ends h hfirst
      rw [hskip] at hb hbegun
      exact ⟨k, event, s', hb, hdone, hend,
        (congrArg (s.engine :: ·) (List.append_nil _)).trans hbegun⟩
    | waits hs =>
      have hpc : (s.engine.after 1).machine.pc = s.engine.machine.pc :=
        Engine.pc_of_step_none h hs
      have hw := Engine.isAwaiting_of_step hs
      have hone : s.Completes budget 1 := by
        refine ⟨by omega, fun j hj => ?_, fun j hj => by omega, fun j hj hs => by omega⟩
        obtain rfl : j = 0 := by omega
        exact ⟨none, hs⟩
      refine ⟨1, _, _, ?_, hone, .waits (.inl Nat.one_pos) hw, rfl⟩
      rw [hpc]
      rfl
    | fails hs =>
      have hnone : s.Completes budget 0 :=
        ⟨Nat.zero_le _, fun j hj => by omega, fun j hj => by omega, fun j hj => by omega⟩
      have hend : s.RunEnds budget 0 _ _ :=
        .fails (by omega) (fun h0 => by omega) (fun h0 => by omega) hs
      rw [Nat.zero_min] at hend
      exact ⟨0, _, _, rfl, hnone, hend, rfl⟩
  · have hskip : s.skips budget = 0 := if_neg hp
    have hb := @runBulk_ends s budget h (by rw [hskip]; omega)
    have hz : budget - (0 : Nat) = budget := by omega
    rw [if_neg hp, if_neg hp]
    rw [hskip, hz] at hb
    obtain ⟨k, event, s', hb, hdone, hend, hbegun⟩ := hb
    exact ⟨k, event, s', hb, hdone, hend, (List.append_nil _).trans hbegun⟩

end Session
end Chip8
