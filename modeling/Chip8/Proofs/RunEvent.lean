import Chip8.Proofs.Core
import Chip8.Proofs.Operation

/-!
# Chip8.Proofs.RunEvent

What the event of a run is worth. `Session.Vouches` says for each reason what is then true of the session
that the run leaves and of the cycles that it began; of the other reasons nothing is true, so they never
come up.

`run_truthful`: within the bounds every run, of any budget and under any debugger, returns an event that
vouches for it, at the program counter where it ends, whatever event an earlier run has left behind.
-/

namespace Chip8

namespace Debugger

variable {d : Debugger} {m : Machine}

/-- The condition with id `id` holds, and none with a lower id does. -/
structure LowestHolding (d : Debugger) (m : Machine) (id : Nat) (c : Condition) : Prop where
  at_id : d.conditions[id]? = some (some c)
  holds : c.holds m = true
  lowest : ∀ j < id, ∀ b, d.conditions[j]? = some (some b) → b.holds m = false

theorem lowestHolding_of_firstHolding? {c : Condition} (h : d.firstHolding? m = some c) :
    ∃ id, d.LowestHolding m id c := by
  obtain ⟨before, b, after, hsplit, hb, hnone⟩ := List.findSome?_eq_some_iff.mp h
  obtain ⟨rfl, hholds⟩ := Option.filter_eq_some_iff.mp hb
  refine ⟨before.length, ?_, hholds, ?_⟩
  · rw [hsplit, List.getElem?_append_right (Nat.le_refl _), Nat.sub_self]
    rfl
  · intro j hj b hget
    rw [hsplit, List.getElem?_append_left hj] at hget
    have := hnone _ (List.mem_of_getElem? hget)
    simpa using this

end Debugger

namespace Engine

variable {e f e' : Engine} {x : Failure}

theorem step_error_congr (h : e.core = f.core) (hs : step e = .error x e') :
    ∃ f', step f = .error x f' := by
  have ha := step_congr h
  rw [hs] at ha
  generalize step f = res at ha ⊢
  cases ha with
  | error => exact ⟨_, rfl⟩

/-- A cycle that fails fails again: it has changed nothing that the next one looks at. -/
theorem step_error_again (h : e.machine.WellFormed) (hs : step e = .error x e')
    (notes : List Note) : ∃ f, step (e'.noted notes) = .error x f :=
  step_error_congr (core_of_step_error h hs).symm hs

end Engine

namespace Session

variable {s s' : Session} {budget : Int} {k n : Nat} {event : Event}

/-- What is true of a run that begins `n` cycles, by the reason of its event. -/
def Vouches (s : Session) (budget : Int) (n : Nat) (event : Event) (s' : Session) : Prop :=
  match event.reason with
  | .maxCycles =>
    n = budget.toNat ∧ (∀ j < n, (s.engine.after j).completes = true) ∧ s'.machine.awaiting = none
  | .keyWait => ∃ x, s'.machine.awaiting = some x
  | .pcBreakpoint => s'.debugger.hasBreakpoint s'.machine.pc = true
  | .registerCondition => s'.debugger.hasBreakpoint s'.machine.pc = false ∧
    ∃ id c, s'.debugger.LowestHolding s'.machine id c ∧
      event = Debugger.onCondition s'.machine.pc c
  | .userInterrupt => s.debugger.requested = true ∧ s'.debugger.requested = false
  | .error => ∃ f, event = faulted s'.machine.pc f ∧
    ∃ e, Engine.step s'.engine = .error (.fault f) e
  | .none | .step => False

/-- A run begins the first `n` cycles of plain stepping, leaves what they leave, and returns an event that
tells of it. -/
structure Truthful (s : Session) (budget : Int) (n : Nat) (event : Event) (s' : Session) : Prop where
  begun : (s.runStretches budget).flatten = (List.range n).map s.engine.after
  le_budget : n ≤ budget.toNat
  leaves : s'.engine.core = (s.engine.after n).core
  address : event.address = some (s'.machine.pc : Int)
  vouches : s.Vouches budget n event s'

theorem vouches_of_stop (h : s.machine.WellFormed)
    (hs : s.debugger.clearLast.stop? (s.engine.after k).machine = some event) :
    event.address = some ((s.engine.after k).machine.pc : Int) ∧
      s.Vouches budget k event ⟨s.engine.after k,
        { s.debugger with requested := false, last := some event }, s.record, s.cycles + k⟩ := by
  have hpc := (Engine.wellFormed_after h k).pc_lt
  obtain ⟨hq, rfl⟩ | ⟨hp, rfl⟩ | ⟨hp, c, hc, rfl⟩ := Debugger.stop?_cases hs
  · exact ⟨rfl, hq, rfl⟩
  · exact ⟨rfl, (Debugger.hasBreakpoint_iff hpc).mpr hp⟩
  · obtain ⟨id, hid⟩ := Debugger.lowestHolding_of_firstHolding? hc
    refine ⟨rfl, ?_, id, c, ⟨hid.at_id, hid.holds, hid.lowest⟩, rfl⟩
    rw [← Bool.not_eq_true]
    intro hb
    exact hp ((Debugger.hasBreakpoint_iff hpc).mp hb)

theorem truthful_of_runEnds (h : s.machine.WellFormed) (hdone : s.Completes budget k)
    (hend : s.RunEnds budget k event s')
    (hbegun : (s.runStretches budget).flatten = s.begun k event) :
    ∃ n, s.Truthful budget n event s' := by
  cases hend with
  | spent hk hw =>
    have hnone := Option.isNone_iff_eq_none.mp (Option.isSome_eq_false_iff.mp hw)
    refine ⟨k, hbegun, hdone.le_budget, rfl, rfl, hk, ?_, hnone⟩
    intro j hj
    obtain ⟨a, hs⟩ := hdone.step j hj
    exact Engine.completes_of_ok hs
  | waits hk hw =>
    have hx := Option.isSome_iff_exists.mp hw
    exact ⟨k, hbegun, hdone.le_budget, rfl, rfl, hx⟩
  | stopped hk hskip hw hs =>
    obtain ⟨haddress, hvouches⟩ := vouches_of_stop h hs
    refine ⟨k, ?_, hdone.le_budget, rfl, haddress, hvouches⟩
    rw [hbegun, begun, Debugger.isError_of_stop? hs]
    rfl
  | @fails f hk hw hd hs =>
    have hwf := Engine.wellFormed_after h k
    have hcore := Engine.core_of_step_error hwf hs
    have hpc : (s.engine.after (k + 1)).machine.pc = (s.engine.after k).machine.pc :=
      congrArg (·.1.pc) hcore
    have hagain := Engine.step_error_again hwf hs [.stopped f]
    rw [← hpc] at hbegun ⊢
    exact ⟨k + 1, hbegun, hk, rfl, rfl, f, rfl, hagain⟩

theorem run_forgets (s : Session) (budget : Int) (watch : Watch) (last : Option Event) :
    run budget watch { s with debugger := { s.debugger with last } } = run budget watch s := by
  rw [run_eq, run_eq]
  rfl

/-- **The event of a run tells the truth**, whatever an earlier run has left behind. -/
theorem run_truthful (s : Session) (h : s.machine.WellFormed) (budget : Int) :
    ∃ n event s', run budget .debugger s = .ok event s' ∧ s.Truthful budget n event s' ∧
      ∀ last, run budget .debugger { s with debugger := { s.debugger with last } } =
        .ok event s' := by
  obtain ⟨k, event, s', hrun, hdone, hend, hbegun⟩ := run_ends h budget
  obtain ⟨n, htruth⟩ := truthful_of_runEnds h hdone hend hbegun
  refine ⟨n, event, s', hrun, htruth, ?_⟩
  intro last
  rw [run_forgets, hrun]

/-- Two loads, a breakpoint at the first, and a condition that holds after the second. -/
def watchedLoads : Session :=
  (start (.ofBytes #[]) false).play [.load [0x60, 0x01, 0x61, 0x02, 0x12, 0x04],
    .debug (.addBreakpoint 0x200), .debug (.watch "v1" "==" 2 "V1 is two")]

theorem watchedLoads_truthful :
    watchedLoads.machine.WellFormed ∧
      (left (run 10 .debugger) watchedLoads).machine.pc = 0x204 ∧
      ∃ n event s', run 10 .debugger watchedLoads = .ok event s' ∧
        watchedLoads.Truthful 10 n event s' ∧
        ∀ last, run 10 .debugger
          { watchedLoads with debugger := { watchedLoads.debugger with last } } = .ok event s' := by
  have hw : watchedLoads.machine.WellFormed := wellFormed_play (wellFormed_start _ _) _
  exact ⟨hw, by decide +kernel, run_truthful watchedLoads hw 10⟩

end Session
end Chip8
