import Chip8.Proofs.Operation

/-!
# Chip8.Proofs.Objections

Break requests and conditions against runs. A debugger objects to an instruction when a request is
pending or a condition holds; a breakpoint is no objection, for a run may step over the one that it
begins at. Stepping over it asks the debugger nothing at all, so an objection to the first instruction
is overlooked exactly if that instruction lies at a breakpoint.

`honoursObjections_iff`: of any session that awaits no key, within its bounds or not, a run begins no
instruction against an objection, and a pending request stops it at once, if and only if it does not
begin at a breakpoint against an objection. After its first instruction a run always honours them.
-/

namespace Chip8

/-- A request is pending or a condition holds. -/
def Debugger.Objects (d : Debugger) (m : Machine) : Prop :=
  d.requested = true ∨ ∃ c, some c ∈ d.conditions ∧ c.holds m = true

section Debugger

variable {d : Debugger} {m : Machine} {record : Array (Nat × Nat)} {e e' : Engine}

theorem Debugger.firstHolding?_eq_none_iff :
    d.firstHolding? m = none ↔ ∀ c, some c ∈ d.conditions → c.holds m = false := by
  rw [firstHolding?, List.findSome?_eq_none_iff]
  constructor
  · intro h c hc
    simpa using h (some c) hc
  · intro h c hc
    cases c with
    | none => rfl
    | some c => simpa using h c hc

theorem Debugger.not_objects_of_allows (h : d.Allows m) (hw : m.isAwaiting = false) :
    ¬d.Objects m := by
  have hs : d.stop? m = none := h.resolve_left (by simp [hw])
  obtain ⟨hq, -, hc⟩ := stop?_eq_none hs
  rintro (hr | ⟨c, hmem, hholds⟩)
  · rw [hq] at hr
    cases hr
  · rw [firstHolding?_eq_none_iff.mp hc c hmem] at hholds
    cases hholds

/-- The cycles of a bulk run were all let begin by the debugger, and none of them awaits a key if the
first does not. -/
theorem Engine.allows_of_trail {n : Nat} (hw : e.machine.isAwaiting = false)
    (h : e' ∈ trail Watch.debugger.hook n e (d, record)) :
    d.Allows e'.machine ∧ e'.machine.isAwaiting = false := by
  induction n generalizing e with
  | zero => cases h
  | succ n ih =>
    simp only [trail] at h
    split at h
    · cases h
    · rename_i p ha
      obtain ⟨d', record'⟩ := p
      obtain ⟨hallows, rfl, rfl⟩ := allows_of_ask ha
      obtain rfl | h := List.mem_cons.mp h
      · exact ⟨hallows, hw⟩
      · split at h
        · rename_i hs
          exact ih (isAwaiting_of_step hs) h
        · cases h
        · cases h

end Debugger

namespace Engine

variable {σ : Type}

/-- The engine that a bulk run leaves. -/
def executed (hook : Hook σ) (budget done : Nat) (e : Engine) (s : σ) : Engine :=
  match executeFrom hook budget done e s with
  | .ok _ (e, _) => e
  | .error _ (e, _) => e

/-- A bulk run begins the first cycles of plain stepping and leaves what they leave. -/
theorem executed_eq_after (hook : Hook σ) (budget done : Nat) (e : Engine) (s : σ) :
    ∃ n, trail hook budget e s = (List.range n).map e.after ∧
      executed hook budget done e s = e.after n := by
  induction budget generalizing done e s with
  | zero => exact ⟨0, rfl, rfl⟩
  | succ budget ih =>
    simp only [executed, executeFrom, trail]
    cases ha : hook.ask e.machine s with
    | mk go s₁ =>
      cases go with
      | false => exact ⟨0, rfl, rfl⟩
      | true =>
        cases hs : step e with
        | ok a e₁ =>
          have hnext := next_of_ok hs
          cases a with
          | none => exact ⟨1, rfl, hnext.symm⟩
          | some ins =>
            obtain ⟨n, htrail, hleft⟩ := ih (done + 1) e₁ s₁
            refine ⟨n + 1, ?_, ?_⟩
            · rw [map_after_cons, hnext, ← htrail]
            · rw [← after_next, hnext]
              exact hleft
        | error f e₁ => exact ⟨1, rfl, (next_of_error hs).symm⟩

end Engine

namespace Session

variable {s : Session} {budget : Int}

/-- A run honours what the debugger objects to. -/
structure HonoursObjections (s : Session) (budget : Int) : Prop where
  /-- No instruction begins against an objection, the first one included. -/
  begins : ∀ e ∈ (s.runStretches budget).flatten, ¬s.debugger.Objects e.machine
  /-- A pending request ends the run at once, and is used up. -/
  interrupts : s.debugger.requested = true →
    ∃ s', run budget .debugger s = .ok (Debugger.interrupted s.machine.pc) s' ∧
      s'.engine = s.engine ∧ s'.debugger.requested = false

/-- The debugger objects to the first instruction, and a breakpoint is there. -/
def Overlooks (s : Session) : Prop :=
  s.debugger.hasBreakpoint s.machine.pc = true ∧ s.debugger.Objects s.machine

/-! ## The stretches of a run -/

theorem core_left_fail (f : Failure) (s : Session) :
    (left (fail f) s).engine.core = s.engine.core := by
  cases f with
  | fault f => rfl
  | defect d => rfl

theorem bulkStretch_eq_after (budget cycles : Int) (s : Session) :
    ∃ n, s.bulkStretch cycles = (List.range n).map s.engine.after ∧
      (left (runBulk .debugger budget cycles) s).engine.core = (s.engine.after n).core := by
  obtain ⟨n, htrail, hleft⟩ := Engine.executed_eq_after Watch.debugger.hook cycles.toNat 0 s.engine
    (s.debugger, s.record)
  refine ⟨n, htrail, ?_⟩
  rw [← hleft, left, runBulk_eq, Engine.executed, Engine.execute]
  cases Engine.executeFrom Watch.debugger.hook cycles.toNat 0 s.engine (s.debugger, s.record) with
  | ok done p => rfl
  | error f p => exact core_left_fail f _

/-- A run from a breakpoint is one cycle without a question and, if that completes, a bulk run. -/
theorem run_over_breakpoint (hp : 0 < budget ∧ s.debugger.hasBreakpoint s.machine.pc = true) :
    (∃ ins t, Engine.step s.engine = .ok (some ins) t.engine ∧
      t.debugger = s.debugger.clearLast ∧
      s.runStretches budget = [[s.engine], t.bulkStretch (budget - 1)] ∧
      run budget .debugger s = runBulk .debugger budget (budget - 1) t) ∨
    (s.runStretches budget = [[s.engine]] ∧
      (left (run budget .debugger) s).engine.core = s.engine.next.core) := by
  have hengine : (s.control Debugger.clearLast).engine = s.engine := rfl
  rw [left, run_eq, runStretches, if_pos hp, if_pos hp, step_session_eq, hengine]
  cases hs : Engine.step s.engine with
  | ok a e =>
    cases a with
    | some ins => exact .inl ⟨ins, ⟨e, s.debugger.clearLast, s.record, s.cycles + 1⟩, rfl, rfl, rfl, rfl⟩
    | none => exact .inr ⟨rfl, by rw [Engine.next_of_ok hs]; rfl⟩
  | error f e =>
    rw [Engine.next_of_error hs]
    cases f with
    | fault f => exact .inr ⟨rfl, rfl⟩
    | defect d => exact .inr ⟨rfl, rfl⟩

theorem flatten_runStretches (hp : 0 < budget ∧ s.debugger.hasBreakpoint s.machine.pc = true) :
    (s.runStretches budget).flatten = s.engine :: (s.runStretches budget).flatten.tail := by
  rw [runStretches, if_pos hp]
  rfl

/-- A run begins the first cycles of plain stepping and leaves what they leave. -/
theorem runStretches_eq_after (budget : Int) (s : Session) :
    ∃ n, (s.runStretches budget).flatten = (List.range n).map s.engine.after ∧
      (left (run budget .debugger) s).engine.core = (s.engine.after n).core := by
  by_cases hp : 0 < budget ∧ s.debugger.hasBreakpoint s.machine.pc = true
  · obtain ⟨ins, t, hs, -, hstretches, hrun⟩ | ⟨hstretches, hcore⟩ := run_over_breakpoint hp
    · obtain ⟨n, htrail, hleft⟩ := bulkStretch_eq_after budget (budget - 1) t
      have hnext := Engine.next_of_ok hs
      refine ⟨n + 1, ?_, ?_⟩
      · rw [hstretches, Engine.map_after_cons, hnext, ← htrail]
        exact congrArg (s.engine :: ·) (List.append_nil _)
      · rw [← Engine.after_next, hnext, ← hleft, left, hrun]
        rfl
    · exact ⟨1, by rw [hstretches]; rfl, hcore⟩
  · obtain ⟨n, htrail, hleft⟩ := bulkStretch_eq_after budget budget (s.control Debugger.clearLast)
    refine ⟨n, ?_, ?_⟩
    · rw [runStretches, if_neg hp]
      exact (List.append_nil _).trans htrail
    · rw [left, run_eq, if_neg hp]
      exact hleft

/-! ## Objections -/

theorem not_objects_of_bulkStretch {cycles : Int} (hw : s.machine.isAwaiting = false) {e : Engine}
    (h : e ∈ s.bulkStretch cycles) : ¬s.debugger.Objects e.machine := by
  obtain ⟨hallows, hw⟩ := Engine.allows_of_trail hw h
  exact Debugger.not_objects_of_allows hallows hw

/-- Only the first instruction of a run may begin against an objection, and only at a breakpoint. -/
theorem not_objects_of_runStretches (hw : s.machine.isAwaiting = false) {e : Engine} :
    (e ∈ (s.runStretches budget).flatten.tail → ¬s.debugger.Objects e.machine) ∧
      (e ∈ (s.runStretches budget).flatten →
        ¬s.debugger.hasBreakpoint s.machine.pc = true → ¬s.debugger.Objects e.machine) := by
  by_cases hp : 0 < budget ∧ s.debugger.hasBreakpoint s.machine.pc = true
  · refine ⟨fun h => ?_, fun _ hb => absurd hp.2 hb⟩
    obtain ⟨ins, t, hs, hd, hstretches, -⟩ | ⟨hstretches, -⟩ := run_over_breakpoint hp
    · have hw : t.machine.isAwaiting = false := Engine.isAwaiting_of_step hs
      rw [hstretches] at h
      have h : e ∈ t.bulkStretch (budget - 1) ++ [] := h
      rw [List.append_nil] at h
      have hno := not_objects_of_bulkStretch hw h
      rw [hd] at hno
      exact hno
    · rw [hstretches] at h
      cases h
  · have hbulk (h : e ∈ (s.runStretches budget).flatten) : ¬s.debugger.Objects e.machine := by
      rw [runStretches, if_neg hp] at h
      have h : e ∈ (s.control Debugger.clearLast).bulkStretch budget ++ [] := h
      rw [List.append_nil] at h
      have hw : (s.control Debugger.clearLast).machine.isAwaiting = false := hw
      exact not_objects_of_bulkStretch hw h
    exact ⟨fun h => hbulk (List.mem_of_mem_tail h), fun h _ => hbulk h⟩

/-- Without a breakpoint there a pending request ends a run at its first program counter. -/
theorem run_interrupted (hw : s.machine.isAwaiting = false) (hb : 0 < budget)
    (hq : s.debugger.requested = true) (hp : ¬s.debugger.hasBreakpoint s.machine.pc = true) :
    ∃ s', run budget .debugger s = .ok (Debugger.interrupted s.machine.pc) s' ∧
      s'.engine = s.engine ∧ s'.debugger.requested = false := by
  obtain ⟨n, hn⟩ : ∃ n, budget.toNat = n + 1 := ⟨budget.toNat - 1, by omega⟩
  have hstop : s.debugger.clearLast.stop? s.engine.machine =
      some (Debugger.interrupted s.machine.pc) := if_pos hq
  have hask := @ask_of_stop s.record s.debugger.clearLast s.engine.machine _ hw hstop
  have hneg : ¬(0 < budget ∧ s.debugger.hasBreakpoint s.machine.pc = true) := fun h => hp h.2
  rw [run_eq, if_neg hneg, runBulk_eq, hn]
  simp only [Engine.execute, Engine.executeFrom, control]
  rw [hask]
  exact ⟨_, rfl, rfl, rfl⟩

/-- **Requests and conditions are honoured before every instruction, unless the first one lies at a
breakpoint.** The instructions are those that plain stepping begins; after the first one objections
are honoured in any case. -/
theorem honoursObjections_iff (s : Session) (budget : Int) (hw : s.machine.isAwaiting = false)
    (hb : 0 < budget) :
    (s.HonoursObjections budget ↔ ¬s.Overlooks) ∧
    (∀ e ∈ (s.runStretches budget).flatten.tail, ¬s.debugger.Objects e.machine) ∧
    ∃ n, (s.runStretches budget).flatten = (List.range n).map s.engine.after ∧
      (left (run budget .debugger) s).engine.core = (s.engine.after n).core := by
  refine ⟨⟨?_, ?_⟩, fun e h => (not_objects_of_runStretches hw).1 h, runStretches_eq_after budget s⟩
  · rintro hall ⟨hp, ho⟩
    refine hall.begins s.engine ?_ ho
    rw [flatten_runStretches ⟨hb, hp⟩]
    exact List.mem_cons_self
  · intro hno
    by_cases hp : s.debugger.hasBreakpoint s.machine.pc = true
    · -- at a breakpoint there is no objection to the first instruction, and no request
      have hfirst : ¬s.debugger.Objects s.machine := fun ho => hno ⟨hp, ho⟩
      refine ⟨fun e he => ?_, fun hq => absurd (.inl hq) hfirst⟩
      rw [flatten_runStretches ⟨hb, hp⟩] at he
      obtain rfl | he := List.mem_cons.mp he
      · exact hfirst
      · exact (not_objects_of_runStretches hw).1 he
    · exact ⟨fun e he => (not_objects_of_runStretches hw).2 he hp,
        fun hq => run_interrupted hw hb hq hp⟩

/-- A load and a jump to itself, with a breakpoint and a pending request at the load. -/
def requestAtBreakpoint : Session :=
  (start (.ofBytes #[]) false).play
    [.load [0x60, 0x01, 0x12, 0x02], .debug (.addBreakpoint 0x200), .debug .request]

theorem requestAtBreakpoint_iff :
    requestAtBreakpoint.machine.isAwaiting = false ∧
      ((requestAtBreakpoint.HonoursObjections 10 ↔ ¬requestAtBreakpoint.Overlooks) ∧
      (∀ e ∈ (requestAtBreakpoint.runStretches 10).flatten.tail,
        ¬requestAtBreakpoint.debugger.Objects e.machine) ∧
      ∃ n, (requestAtBreakpoint.runStretches 10).flatten =
          (List.range n).map requestAtBreakpoint.engine.after ∧
        (left (run 10 .debugger) requestAtBreakpoint).engine.core =
          (requestAtBreakpoint.engine.after n).core) :=
  ⟨rfl, honoursObjections_iff requestAtBreakpoint 10 rfl (by decide)⟩

/-- The load is carried out although a request is pending. -/
theorem requestAtBreakpoint_runs_on :
    requestAtBreakpoint.machine.isAwaiting = false ∧
      requestAtBreakpoint.debugger.requested = true ∧
      (left (run 10 .debugger) requestAtBreakpoint).machine.v[0] = 1 ∧
      ¬requestAtBreakpoint.HonoursObjections 10 := by
  have hv : (left (run 10 .debugger) requestAtBreakpoint).machine.v[0] = 1 := by decide +kernel
  refine ⟨rfl, rfl, hv, fun hall => ?_⟩
  obtain ⟨s', hrun, hengine, -⟩ := hall.interrupts rfl
  rw [left, hrun] at hv
  have hv : s'.engine.machine.v[0] = 1 := hv
  rw [hengine] at hv
  cases hv

end Session
end Chip8
