import Chip8.Proofs.DebuggerView
import Chip8.Proofs.Operation
import Mathlib.Data.List.Sort

/-!
# Chip8.Proofs.DebuggerSetup

What is set in a debugger outlasts every run. `Debugger.SameSetup` compares the breakpoints as a set and the
conditions under their ids; a pending request and the last event are not part of it.

* `sameSetup_restore`     : a breakpoint that is added and, unless it was there, taken away again. It counts
  by twelve bits, and so do the test and the removal.
* `executeFrom_invariant` : what a hook keeps whenever it is asked a bulk run keeps.
* `KeepsSetup`            : computations with the same setup before and after, one behind another.

None of this asks the machine to be within its bounds: a computation that fails keeps the setup too. Main
statement: `setup_outlasts_runs`.
-/

namespace Chip8

namespace Debugger

variable {d d' d'' : Debugger} {a : Int}

structure SameSetup (d d' : Debugger) : Prop where
  mem_breakpoints : ∀ n, n ∈ d'.breakpoints ↔ n ∈ d.breakpoints
  /-- A list in its order is the same list. -/
  breakpoints : d.breakpoints.Pairwise (· < ·) → d'.breakpoints = d.breakpoints
  conditions : d'.conditions = d.conditions

namespace SameSetup

theorem of_eq (hb : d'.breakpoints = d.breakpoints) (hc : d'.conditions = d.conditions) :
    d.SameSetup d' where
  mem_breakpoints n := by rw [hb]
  breakpoints _ := hb
  conditions := hc

theorem refl (d : Debugger) : d.SameSetup d := .of_eq rfl rfl

theorem trans (h : d.SameSetup d') (h' : d'.SameSetup d'') : d.SameSetup d'' where
  mem_breakpoints n := (h'.mem_breakpoints n).trans (h.mem_breakpoints n)
  breakpoints ha := by
    have heq := h.breakpoints ha
    rw [← heq] at ha
    rw [h'.breakpoints ha, heq]
  conditions := h'.conditions.trans h.conditions

theorem hasBreakpoint (h : d.SameSetup d') (a : Int) : d'.hasBreakpoint a = d.hasBreakpoint a := by
  unfold Debugger.hasBreakpoint
  rw [Bool.eq_iff_iff, List.contains_iff_mem, List.contains_iff_mem]
  exact h.mem_breakpoints _

end SameSetup

theorem sameSetup_clearLast (d : Debugger) : d.SameSetup d.clearLast := .of_eq rfl rfl

theorem sameSetup_check (d : Debugger) (m : Machine) (pc : Int) : d.SameSetup (d.check m pc).2 := by
  unfold check
  split
  · exact .of_eq rfl rfl
  · split
    · exact .of_eq rfl rfl
    · split
      · exact .of_eq rfl rfl
      · exact .refl d

/-- A breakpoint that is added for the time of a run. -/
theorem sameSetup_restore (h : (d.addBreakpoint a).SameSetup d') :
    d.SameSetup (if d.hasBreakpoint a then d' else d'.removeBreakpoint a) := by
  have hmem (n : Nat) : n ∈ d'.breakpoints ↔ n = Memory.wrap a ∨ n ∈ d.breakpoints := by
    rw [h.mem_breakpoints]
    exact mem_insert
  have hasc (ha : d.breakpoints.Pairwise (· < ·)) : d'.breakpoints.Pairwise (· < ·) := by
    have hset := ascending_insert ha (Memory.wrap a)
    rw [h.breakpoints hset]
    exact hset
  by_cases hwas : d.hasBreakpoint a = true
  · have hin : Memory.wrap a ∈ d.breakpoints := List.contains_iff_mem.mp hwas
    have hsame (n : Nat) : n ∈ d'.breakpoints ↔ n ∈ d.breakpoints := by
      rw [hmem, or_iff_right_iff_imp]
      rintro rfl
      exact hin
    rw [if_pos hwas]
    exact ⟨hsame, fun ha => (hasc ha).eq_of_mem_iff ha hsame, h.conditions⟩
  · have hout : Memory.wrap a ∉ d.breakpoints := fun hin => hwas (List.contains_iff_mem.mpr hin)
    have hsame (n : Nat) : n ∈ (d'.removeBreakpoint a).breakpoints ↔ n ∈ d.breakpoints := by
      simp only [removeBreakpoint, List.mem_filter, hmem, decide_eq_true_eq]
      constructor
      · rintro ⟨rfl | hn, hne⟩
        · exact absurd rfl hne
        · exact hn
      · intro hn
        refine ⟨.inr hn, ?_⟩
        rintro rfl
        exact hout hn
    rw [if_neg hwas]
    exact ⟨hsame, fun ha => ((hasc ha).filter _).eq_of_mem_iff ha hsame, h.conditions⟩

end Debugger

/-! ## Bulk runs -/

/-- The state in which a bulk run leaves its hook. -/
def Engine.hookLeft {σ : Type} : EStateM.Result Failure (Engine × σ) Nat → σ
  | .ok _ p => p.2
  | .error _ p => p.2

theorem Engine.executeFrom_invariant {σ : Type} {hook : Hook σ} {P : σ → Prop}
    (hask : ∀ m s, P s → P (hook.ask m s).2) (budget : Nat) :
    ∀ (done : Nat) (e : Engine) (s : σ), P s → P (hookLeft (executeFrom hook budget done e s)) := by
  induction budget with
  | zero =>
    intro done e s hs
    exact hs
  | succ budget ih =>
    intro done e s hs
    have hp := hask e.machine s hs
    unfold executeFrom
    split
    · rename_i s' ha
      rw [ha] at hp
      exact hp
    · rename_i s' ha
      rw [ha] at hp
      split
      · exact ih _ _ _ hp
      · exact hp
      · exact hp

/-- No hook touches what is set. -/
theorem Watch.sameSetup_ask (watch : Watch) (m : Machine) (p : Debugger × Array (Nat × Nat)) :
    p.1.SameSetup (watch.hook.ask m p).2.1 := by
  unfold Hook.ask
  split
  · exact .refl _
  · cases watch with
    | off => exact .refl _
    | recorder limit => exact .refl _
    | debugger => exact p.1.sameSetup_check m m.pc

namespace Session

variable {s : Session} {α β : Type}

def KeepsSetup (c : Control α) : Prop :=
  ∀ s : Session, s.debugger.SameSetup (left c s).debugger

namespace KeepsSetup

theorem pure (a : α) : KeepsSetup (Pure.pure a : Control α) := fun s => .refl s.debugger

theorem get : KeepsSetup (MonadState.get : Control Session) := fun s => .refl s.debugger

theorem modify {f : Session → Session} (h : ∀ s : Session, s.debugger.SameSetup (f s).debugger) :
    KeepsSetup (modify f : Control PUnit) := h

theorem bind {c : Control α} {f : α → Control β} (hc : KeepsSetup c) (hf : ∀ a, KeepsSetup (f a)) :
    KeepsSetup (c >>= f) := by
  intro s
  have hfirst := hc s
  unfold left at hfirst ⊢
  show s.debugger.SameSetup (left (EStateM.bind c f) s).debugger
  unfold left EStateM.bind
  cases hcs : c s with
  | ok a s' =>
    rw [hcs] at hfirst
    exact hfirst.trans (hf a s')
  | error x s' =>
    rw [hcs] at hfirst
    exact hfirst

theorem ite {p : Prop} [Decidable p] {c c' : Control α} (hc : KeepsSetup c) (hc' : KeepsSetup c') :
    KeepsSetup (if p then c else c') := by
  by_cases hp : p
  · rw [if_pos hp]
    exact hc
  · rw [if_neg hp]
    exact hc'

end KeepsSetup

theorem keepsSetup_fail (x : Failure) : KeepsSetup (fail x) := by
  intro s
  cases x with
  | fault f => exact .refl s.debugger
  | defect d => exact .refl s.debugger

theorem keepsSetup_step : KeepsSetup step := by
  intro s
  unfold left
  rw [step_session_eq]
  cases Engine.step s.engine with
  | ok a e => cases a <;> exact .refl _
  | error x e => exact keepsSetup_fail x { s with engine := e }

theorem keepsSetup_runBulk (watch : Watch) (budget cycles : Int) :
    KeepsSetup (runBulk watch budget cycles) := by
  intro s
  have hkeeps := Engine.executeFrom_invariant
    (P := fun p : Debugger × Array (Nat × Nat) => s.debugger.SameSetup p.1)
    (fun m p hp => hp.trans (watch.sameSetup_ask m p)) cycles.toNat 0 s.engine
    (s.debugger, s.record) (.refl _)
  unfold left
  rw [runBulk_eq]
  unfold Engine.execute
  cases hrun : Engine.executeFrom watch.hook cycles.toNat 0 s.engine (s.debugger, s.record) with
  | ok done p =>
    rw [hrun] at hkeeps
    exact hkeeps
  | error x p =>
    rw [hrun] at hkeeps
    exact hkeeps.trans (keepsSetup_fail x ⟨p.1, p.2.1, p.2.2, s.cycles⟩)

theorem keepsSetup_run (budget : Int) (watch : Watch) : KeepsSetup (run budget watch) := by
  unfold run
  refine .bind (.modify fun s => s.debugger.sameSetup_clearLast) fun _ => .bind .get fun s => ?_
  refine .ite (.bind keepsSetup_step fun event => ?_) (keepsSetup_runBulk watch budget budget)
  exact .ite (keepsSetup_runBulk watch budget (budget - 1)) (.pure event)

theorem keepsSetup_runFramesLeft (watch : Watch) (stop : Bool) (total : Int) (n : Nat) :
    KeepsSetup (runFramesLeft watch stop total n) := by
  induction n with
  | zero => exact .bind .get fun s => .pure (framesDone s.machine.pc total)
  | succ n ih =>
    unfold runFramesLeft
    refine .bind (keepsSetup_run _ watch) fun event => .ite ?_ (.pure event)
    exact .bind (.modify fun s => .refl s.debugger) fun _ => ih

theorem debugger_left_runUntil (a budget : Int) (watch : Watch) (s : Session) :
    (left (runUntil a budget watch) s).debugger =
      if s.debugger.hasBreakpoint a then
        (left (run budget watch) (s.control (·.addBreakpoint a))).debugger
      else (left (run budget watch) (s.control (·.addBreakpoint a))).debugger.removeBreakpoint a := by
  by_cases hwas : s.debugger.hasBreakpoint a = true
  all_goals
    simp only [left, runUntil, hwas]
    cases run budget watch (s.control (·.addBreakpoint a)) <;> rfl

theorem keepsSetup_runUntil (a budget : Int) (watch : Watch) : KeepsSetup (runUntil a budget watch) := by
  intro s
  rw [debugger_left_runUntil]
  exact Debugger.sameSetup_restore (keepsSetup_run budget watch (s.control (·.addBreakpoint a)))

/-- **Whatever a step or a run comes to, what was set in the debugger is set as before.** A run to an address
leaves no breakpoint there and takes none away. -/
theorem setup_outlasts_runs (s : Session) (watch : Watch) :
    s.debugger.SameSetup (left step s).debugger ∧
      (∀ budget, s.debugger.SameSetup (left (run budget watch) s).debugger) ∧
      (∀ frames stop, s.debugger.SameSetup (left (runFrames frames stop watch) s).debugger) ∧
      ∀ a budget, s.debugger.SameSetup (left (runUntil a budget watch) s).debugger ∧
        ∀ b, (left (runUntil a budget watch) s).debugger.hasBreakpoint b = s.debugger.hasBreakpoint b := by
  refine ⟨keepsSetup_step s, fun budget => keepsSetup_run budget watch s, ?_, ?_⟩
  · intro frames stop
    exact keepsSetup_runFramesLeft watch stop frames frames.toNat s
  · intro a budget
    have hkept := keepsSetup_runUntil a budget watch s
    exact ⟨hkept, hkept.hasBreakpoint⟩

end Session
end Chip8
