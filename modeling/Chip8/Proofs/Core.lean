import Chip8.Proofs.Drive

/-!
# Chip8.Proofs.Core

What a cycle depends on. Two engines with the same machine and the same random bytes (`Engine.core`) step
to the same answer, or fail in the same way, and have the same core again, whatever they have noted down
and whether they trace (`step_congr`). So it is under any inputs (`drive_congr`). None of this asks the
machine to be within its bounds.
-/

namespace Chip8
namespace Engine

variable {α β : Type} {e f : Engine}

/-- The same answer or the same failure, and the same core. -/
inductive Agree : EStateM.Result Failure Engine α → EStateM.Result Failure Engine α → Prop where
  | ok {a : α} {e f : Engine} : e.core = f.core → Agree (.ok a e) (.ok a f)
  | error {x : Failure} {e f : Engine} : e.core = f.core → Agree (.error x e) (.error x f)

/-- A computation that depends on the core of an engine only. -/
def CoreOnly (c : Cycle α) : Prop :=
  ∀ e f : Engine, e.core = f.core → Agree (c e) (c f)

theorem core_eq_iff : e.core = f.core ↔ e.machine = f.machine ∧ e.random = f.random := by
  simp only [core, Prod.mk.injEq]

namespace CoreOnly

theorem pure (a : α) : CoreOnly (pure a : Cycle α) := fun _ _ h => .ok h

theorem throw (x : Failure) : CoreOnly (throw x : Cycle α) := fun _ _ h => .error h

theorem bind {c : Cycle α} {k : α → Cycle β} (hc : CoreOnly c) (hk : ∀ a, CoreOnly (k a)) :
    CoreOnly (c >>= k) := by
  intro e f h
  have hr := hc e f h
  simp only [Bind.bind, EStateM.bind]
  generalize c e = x at hr ⊢
  generalize c f = y at hr ⊢
  cases hr with
  | ok h => exact hk _ _ _ h
  | error h => exact .error h

/-- The engine may be asked for if only its machine is used. -/
theorem get {k : Engine → Cycle β} (hm : ∀ e f, e.machine = f.machine → k e = k f)
    (hk : ∀ e, CoreOnly (k e)) : CoreOnly (get >>= k) := by
  intro e f h
  have heq : k e = k f := hm e f (congrArg Prod.fst h)
  have hr := hk f e f h
  simp only [Bind.bind, EStateM.bind, get_eq, heq]
  exact hr

theorem change (g : Machine → Machine) : CoreOnly (change g) := by
  intro e f h
  obtain ⟨hm, hr⟩ := core_eq_iff.mp h
  refine .ok (core_eq_iff.mpr ⟨?_, hr⟩)
  exact congrArg g hm

theorem note (n : Note) : CoreOnly (note n) := by
  intro e f h
  rw [note_eq, note_eq]
  exact .ok h

theorem randomByte : CoreOnly randomByte := by
  intro e f h
  obtain ⟨hm, hr⟩ := core_eq_iff.mp h
  rw [randomByte_eq, randomByte_eq, hr]
  exact .ok (core_eq_iff.mpr ⟨hm, rfl⟩)

theorem orDefect (x : Except Defect α) : CoreOnly (orDefect x) := by
  cases x with
  | ok a => exact pure a
  | error d => exact throw _

theorem raise (cause : Cause) : CoreOnly (raise cause : Cycle α) :=
  get (fun _ _ h => by simp only [h]) fun _ => throw _

theorem decodeHere : CoreOnly decodeHere := by
  refine get (fun _ _ h => by simp only [h]) fun e => ?_
  dsimp only
  cases Instruction.decode e.machine.word (some e.machine.pc) with
  | ok ins => exact pure ins
  | error x => exact throw _

theorem returnFromCall : CoreOnly returnFromCall := by
  have hread : CoreOnly (do
      let m := (← MonadState.get).machine
      let top ← Engine.orDefect (slot 16 .noSlotToRead m.sp)
      Engine.change fun m => m.jump m.stack[top]) :=
    get (fun _ _ h => by simp only [h]) fun _ => (orDefect _).bind fun _ => change _
  refine get (fun _ _ h => by simp only [h]) fun e => ?_
  dsimp only
  split
  · exact (raise _).bind fun _ => (change _).bind fun _ => hread
  · exact (change _).bind fun _ => hread

theorem call (target : Nat) : CoreOnly (call target) := by
  refine get (fun _ _ h => by simp only [h]) fun e => ?_
  dsimp only
  split
  · exact (raise _).bind fun _ => (orDefect _).bind fun _ => change _
  · exact (orDefect _).bind fun _ => change _

theorem takeKey (x : Fin 16) : CoreOnly (takeKey x) := by
  refine get (fun _ _ h => by simp only [h]) fun e => ?_
  split
  · exact change _
  · exact (change _).bind fun _ => note _

theorem readDelay (x : Fin 16) : CoreOnly (readDelay x) :=
  get (fun _ _ h => by simp only [h]) fun _ => (orDefect _).bind fun _ => change _

theorem guardStore (count : Nat) : CoreOnly (guardStore count) := by
  refine get (fun _ _ h => by simp only [h]) fun e => ?_
  split
  · exact raise _
  · exact pure _

theorem perform (ins : Instruction) : CoreOnly (perform ins) := by
  simp only [Engine.perform]
  split
  case h_1 => exact raise _
  case h_2 => exact returnFromCall
  case h_3 => exact call _
  case h_4 => exact randomByte.bind fun _ => change _
  case h_5 => exact readDelay _
  case h_6 => exact takeKey _
  case h_7 | h_8 => exact (guardStore _).bind fun _ => change _
  case h_9 => exact change _

theorem poll (register : Int) : CoreOnly (poll register) := by
  refine get (fun _ _ h => by simp only [h]) fun e => ?_
  dsimp only
  split
  · exact pure _
  · refine decodeHere.bind fun ins => (orDefect _).bind fun _ => (change _).bind fun _ => ?_
    exact (note _).bind fun _ => pure _

/-- Carrying out an instruction and looking whether it waits. -/
theorem finish (ins : Instruction) : CoreOnly (do
    Engine.perform ins
    return if (← MonadState.get).machine.isAwaiting then none else some ins) :=
  (perform ins).bind fun _ => get (fun _ _ h => by simp only [h]) fun _ => pure _

/-- A trace is noted or not. -/
theorem traced {c : Cycle β} (hc : CoreOnly c) (n : Note) {b b' : Bool} (h : e.core = f.core) :
    Agree ((if b then do Engine.note n; c else c) e) ((if b' then do Engine.note n; c else c) f) := by
  have hn (e : Engine) : (do Engine.note n; c) e = c (e.noted [n]) := by
    simp only [Bind.bind, EStateM.bind, note_eq]
  cases b with
  | true =>
    cases b' with
    | true => exact (note n).bind (fun _ => hc) e f h
    | false =>
      simp only [if_true, hn]
      exact hc _ _ h
  | false =>
    cases b' with
    | true =>
      simp only [if_true, hn]
      exact hc _ _ h
    | false => exact hc e f h

end CoreOnly

/-- **A cycle depends on the core only**, and leaves the core only to depend on. -/
theorem step_congr (h : e.core = f.core) : Agree (step e) (step f) := by
  obtain ⟨hm, -⟩ := core_eq_iff.mp h
  simp only [step, bind, EStateM.bind, get_eq, hm]
  cases f.machine.awaiting with
  | some x => exact CoreOnly.poll x e f h
  | none =>
    simp only [EStateM.bind, decodeHere_eq, hm]
    cases Instruction.ofWord? f.machine.word with
    | none =>
      simp only [faultHere, hm]
      exact .error h
    | some ins =>
      simp only [get_eq, hm]
      exact CoreOnly.traced (CoreOnly.finish ins) _ h

theorem next_congr (h : e.core = f.core) : e.next.core = f.next.core := by
  have hs := step_congr h
  simp only [next]
  generalize step e = x at hs ⊢
  generalize step f = y at hs ⊢
  cases hs with
  | ok h => exact h
  | error h => exact h

theorem accept_congr (h : e.core = f.core) (i : Input) : (e.accept i).core = (f.accept i).core := by
  obtain ⟨hm, hr⟩ := core_eq_iff.mp h
  cases i with
  | cycle => exact next_congr h
  | tick | releaseAll => simp only [accept, core, hm, hr]
  | holdKey key held =>
    simp only [accept, hm]
    cases f.machine.holdKey key held with
    | ok m => simp only [core, hr]
    | error x => exact h

theorem drive_congr (h : e.core = f.core) (inputs : List Input) :
    (e.drive inputs).core = (f.drive inputs).core := by
  induction inputs generalizing e f with
  | nil => exact h
  | cons i inputs ih => exact ih (accept_congr h i)

end Engine
end Chip8
