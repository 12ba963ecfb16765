import Chip8.Proofs.PlainFrames
import Chip8.Proofs.PrintedText

/-!
# Chip8.Proofs.PlainEnds

How plain cycles and plain frames come to their end.

* `SameEnds`         : ends that differ in notes and tracing at most. Engines with the same core come to such
  ends (`plainCycles_congr`, `plainFrames_congr`).
* `Sound`            : ends within the bounds. A failure is a fault there, and its message is visible.
* `Session.EndsLike` : a run that leaves the machine of an end, with an event that is an error exactly if the
  end is a failure. Runs and frames of a new session are such (`run_endsLike`, `runFrames_endsLike`).
-/

namespace Chip8

open Text (Visible)

/-! ## Messages -/

theorem visible_fault {f : Fault} (h : Visible f.cause.message) : Visible f.message := by
  refine .intercalate (by decide) fun t ht => ?_
  rcases List.mem_append.mp ht with ht | ht
  · rcases List.mem_append.mp ht with ht | ht
    · obtain ⟨a, -, rfl⟩ := Option.map_eq_some_iff.mp (Option.mem_toList.mp ht)
      exact .append (.append (by decide) (.hex 4 a)) (by decide)
    · obtain ⟨w, -, rfl⟩ := Option.map_eq_some_iff.mp (Option.mem_toList.mp ht)
      exact .append (.append (by decide) (.hex 4 w)) (by decide)
  · obtain rfl := List.mem_singleton.mp ht
    exact h

theorem Machine.Fails.visible {m : Machine} {cause : Cause} (h : m.Fails cause) : Visible cause.message := by
  cases h with
  | undecoded => decide
  | refused _ _ hr =>
    cases hr with
    | machineCode => decide
    | underflow => decide
    | overflow => decide
    | protectedWrite => exact .append (by decide) (.hex 3 _)

theorem Event.visible_text {e : Event} (hm : Visible e.message) (hd : Visible e.defaultText) :
    Visible e.text := by
  unfold text
  split
  · exact hd
  · exact hm

namespace Engine

/-! ## Ends -/

namespace Ends

def engine : Ends → Engine
  | spent e | awaits e | failed _ e => e

def isFailed : Ends → Bool
  | spent _ | awaits _ => false
  | failed .. => true

end Ends

inductive SameEnds : Ends → Ends → Prop where
  | spent {e f : Engine} : e.core = f.core → SameEnds (.spent e) (.spent f)
  | awaits {e f : Engine} : e.core = f.core → SameEnds (.awaits e) (.awaits f)
  | failed {e f : Engine} (x : Failure) : e.core = f.core → SameEnds (.failed x e) (.failed x f)

variable {e f : Engine}

theorem SameEnds.machine {ends ends' : Ends} (h : SameEnds ends ends') :
    ends.engine.machine = ends'.engine.machine := by
  cases h with
  | spent h => exact congrArg Prod.fst h
  | awaits h => exact congrArg Prod.fst h
  | failed x h => exact congrArg Prod.fst h

theorem SameEnds.isFailed {ends ends' : Ends} (h : SameEnds ends ends') : ends.isFailed = ends'.isFailed := by
  cases h <;> rfl

theorem plainCycles_congr (h : e.core = f.core) (n : Nat) : SameEnds (e.plainCycles n) (f.plainCycles n) := by
  induction n generalizing e f with
  | zero => exact .spent h
  | succ n ih =>
    have hstep := step_congr h
    unfold plainCycles
    generalize step e = x at hstep ⊢
    generalize step f = y at hstep ⊢
    cases hstep with
    | @ok a _ _ h =>
      cases a with
      | some ins => exact ih h
      | none => exact .awaits h
    | error h => exact .failed _ h

theorem core_tick (h : e.core = f.core) : (e.accept .tick).core = (f.accept .tick).core := by
  obtain ⟨hm, hr⟩ := core_eq_iff.mp h
  exact core_eq_iff.mpr ⟨congrArg Machine.tick hm, hr⟩

theorem plainFrames_congr (h : e.core = f.core) (stop : Bool) (n : Nat) :
    SameEnds (e.plainFrames stop n) (f.plainFrames stop n) := by
  induction n generalizing e f with
  | zero => exact .spent h
  | succ n ih =>
    have hcycles := plainCycles_congr h Settings.cyclesPerTick
    unfold plainFrames
    generalize e.plainCycles Settings.cyclesPerTick = x at hcycles ⊢
    generalize f.plainCycles Settings.cyclesPerTick = y at hcycles ⊢
    cases hcycles with
    | spent h => exact ih (core_tick h)
    | awaits h =>
      cases stop with
      | true => exact .awaits h
      | false => exact ih (core_tick h)
    | failed x h => exact .failed x h

/-- Within the bounds, and failed by a fault that is told in visible text. -/
def Ends.Sound : Ends → Prop
  | spent e | awaits e => e.machine.WellFormed
  | failed x e => e.machine.WellFormed ∧ ∃ f, x = .fault f ∧ Visible f.message

theorem plainCycles_sound (h : e.machine.WellFormed) (n : Nat) : (e.plainCycles n).Sound := by
  induction n generalizing e with
  | zero => exact h
  | succ n ih =>
    unfold plainCycles
    cases hs : step e with
    | ok a e' =>
      have hw := wellFormed_of_step h hs
      cases a with
      | some ins => exact ih hw
      | none => exact hw
    | error x e' =>
      obtain ⟨cause, hc, rfl, rfl⟩ := step_error h hs
      exact ⟨h, _, rfl, visible_fault (Machine.cycle_error_iff.mp hc).visible⟩

theorem plainFrames_sound (h : e.machine.WellFormed) (stop : Bool) (n : Nat) :
    (e.plainFrames stop n).Sound := by
  induction n generalizing e with
  | zero => exact h
  | succ n ih =>
    have hcycles := plainCycles_sound h Settings.cyclesPerTick
    unfold plainFrames
    cases hends : e.plainCycles Settings.cyclesPerTick with
    | spent e' =>
      rw [hends] at hcycles
      exact ih (e := e'.accept .tick) hcycles.tick
    | awaits e' =>
      rw [hends] at hcycles
      cases stop with
      | true => exact hcycles
      | false => exact ih (e := e'.accept .tick) hcycles.tick
    | failed x e' =>
      rw [hends] at hcycles
      exact hcycles

end Engine

namespace Session

open Engine (Ends)

variable {s : Session} {ends : Ends}

/-! ## Runs -/

def EndsLike (ends : Ends) (res : EStateM.Result Defect Session Event) : Prop :=
  ∃ event s', res = .ok event s' ∧ s'.machine = ends.engine.machine ∧ event.isError = ends.isFailed ∧
    Visible event.text

theorem visible_budgetSpent (pc budget : Int) : Visible (budgetSpent pc budget).text :=
  Event.visible_text (.append (.append (by decide) (.int budget)) (by decide))
    (by decide : Visible "Maximum cycles reached")

theorem visible_framesDone (pc frames : Int) : Visible (framesDone pc frames).text :=
  Event.visible_text (.append (.append (by decide) (.int frames)) (by decide))
    (by decide : Visible "Maximum cycles reached")

theorem visible_awaitingKey (pc : Int) : Visible (awaitingKey pc).text :=
  Event.visible_text (.append (by decide) (.hex 3 pc)) (by decide : Visible "Waiting for key")

theorem visible_faulted (pc : Int) {f : Fault} (h : Visible f.message) : Visible (faulted pc f).text :=
  Event.visible_text h h

theorem run_endsLike (h : s.debugger.Idle) (hw : s.machine.WellFormed) (ha : s.machine.isAwaiting = false)
    (n : Int) : EndsLike (s.engine.plainCycles n.toNat) (run n .debugger s) := by
  have hsound := Engine.plainCycles_sound hw n.toNat
  by_cases hn : 0 < n
  · obtain ⟨k, rfl⟩ := Int.eq_ofNat_of_zero_le (Int.le_of_lt hn)
    have hruns := runsPlain_of_idle h (n := k) (by omega)
    rw [Int.toNat_natCast] at hsound ⊢
    generalize s.engine.plainCycles k = ends at hsound hruns ⊢
    cases ends with
    | spent e =>
      obtain ⟨cycles, hrun⟩ := hruns
      exact ⟨_, _, hrun, rfl, rfl, visible_budgetSpent _ _⟩
    | awaits e =>
      obtain ⟨cycles, hrun⟩ := hruns
      exact ⟨_, _, hrun, rfl, rfl, visible_awaitingKey _⟩
    | failed x e =>
      obtain ⟨cycles, hrun⟩ := hruns
      obtain ⟨-, f, rfl, hf⟩ := hsound
      exact ⟨_, _, hrun, rfl, rfl, visible_faulted _ hf⟩
  · -- no cycle is asked for, and none is left over for a breakpoint
    have hzero : n.toNat = 0 := by omega
    have hrun : run n .debugger s = .ok (budgetSpent s.machine.pc n) (s.control Debugger.clearLast) := by
      rw [run_eq, if_neg fun hand => hn hand.1, runBulk_eq, hzero]
      exact congrArg (EStateM.Result.ok · _) (outcome_of_spent ha)
    rw [hzero]
    exact ⟨_, _, hrun, rfl, rfl, visible_budgetSpent _ _⟩

theorem runFrames_endsLike (h : s.debugger.Idle) (hw : s.machine.WellFormed) (frames : Int) (stop : Bool) :
    EndsLike (s.engine.plainFrames stop frames.toNat) (runFrames frames stop .debugger s) := by
  have hsound := Engine.plainFrames_sound hw stop frames.toNat
  have hframes := framesEnd_of_idle h frames stop frames.toNat
  unfold runFrames
  generalize s.engine.plainFrames stop frames.toNat = ends at hsound hframes ⊢
  generalize runFramesLeft .debugger stop frames frames.toNat s = res at hframes ⊢
  cases hframes with
  | spent he =>
    subst he
    exact ⟨_, _, rfl, rfl, rfl, visible_framesDone _ _⟩
  | awaits _ he =>
    subst he
    exact ⟨_, _, rfl, rfl, rfl, visible_awaitingKey _⟩
  | @faults f e s' he =>
    obtain ⟨-, f', hf', hf⟩ := hsound
    cases hf'
    have hmachine : s'.engine.machine = e.machine := by
      rw [he]
      rfl
    exact ⟨_, _, rfl, hmachine, rfl, visible_faulted _ hf⟩
  | defective =>
    -- within the bounds a cycle fails by a fault
    obtain ⟨-, f, hf, -⟩ := hsound
    cases hf

end Session
end Chip8
