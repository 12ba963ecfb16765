import Chip8.Proofs.Frames

/-!
# Chip8.Proofs.Operation

What may be done to a session from outside, as data, and sessions under one operation after another.
An operation that fails leaves the session it had come to.

Within the bounds steps, runs and frames always answer, and every operation keeps the bounds; so every
session that operations make of a new one is within them (`wellFormed_play`).
-/

namespace Chip8

/-- What may be done to a debugger from outside. -/
inductive Debugger.Operation where
  | addBreakpoint (a : Int)
  | removeBreakpoint (a : Int)
  | clearBreakpoints
  | addCondition (c : Condition)
  | watch (register relation : String) (value : Int) (description : String)
  | removeCondition (id : Int)
  | clearConditions
  | request
  | clearRequest
  | clearLast
  | clearAll
  | check (pc : Int)

def Debugger.Operation.apply (m : Machine) (d : Debugger) : Operation → Debugger
  | addBreakpoint a => d.addBreakpoint a
  | removeBreakpoint a => d.removeBreakpoint a
  | clearBreakpoints => d.clearBreakpoints
  | addCondition c => (d.addCondition c).2
  | watch register relation value description =>
    match d.watch register relation value description with
    | .ok (_, d) => d
    | .error _ => d
  | removeCondition id => d.removeCondition id
  | clearConditions => d.clearConditions
  | request => d.request
  | clearRequest => d.clearRequest
  | clearLast => d.clearLast
  | clearAll => d.clearAll
  | check pc => (d.check m pc).2

namespace Session

variable {s : Session}

/-- What may be done to a session from outside. -/
inductive Operation where
  | load (program : List UInt8)
  | poke (a : Int) (bytes : List UInt8)
  | step
  | run (budget : Int)
  | runFrames (frames : Int) (stopOnKeyWait : Bool)
  | runUntil (a budget : Int)
  | tick
  | holdKey (key : Key) (held : Bool)
  | takeFrame
  | reset
  | debug (op : Debugger.Operation)

/-- The session that a computation leaves. -/
def left {α : Type} (c : Control α) (s : Session) : Session :=
  match c s with
  | .ok _ s' => s'
  | .error _ s' => s'

def apply (s : Session) : Operation → Session
  | .load program =>
    match s.load program with
    | .ok s => s
    | .error _ => s
  | .poke a bytes => s.change (·.poke a bytes)
  | .step => left step s
  | .run budget => left (run budget .debugger) s
  | .runFrames frames stop => left (runFrames frames stop .debugger) s
  | .runUntil a budget => left (runUntil a budget .debugger) s
  | .tick => s.tick
  | .holdKey key held =>
    match s.machine.holdKey key held with
    | .ok m => s.change fun _ => m
    | .error _ => s
  | .takeFrame => s.takeFrame.2
  | .reset => s.reset
  | .debug op => s.control fun d => op.apply s.machine d

def play (s : Session) (ops : List Operation) : Session :=
  ops.foldl apply s

/-! ## The bounds -/

theorem wellFormed_left {α : Type} {c : Control α}
    (h : ∃ a s', c s = .ok a s' ∧ s'.machine.WellFormed) : (left c s).machine.WellFormed := by
  obtain ⟨a, s', hc, hw⟩ := h
  simp only [left, hc]
  exact hw

theorem step_total (h : s.machine.WellFormed) :
    ∃ event s', step s = .ok event s' ∧ s'.machine.WellFormed := by
  obtain ⟨event, s', hstep, hend⟩ := step_ends h
  refine ⟨event, s', hstep, ?_⟩
  cases hend with
  | completes => exact Engine.wellFormed_after h 1
  | waits => exact Engine.wellFormed_after h 1
  | fails => exact Engine.wellFormed_after h 1

theorem run_total (h : s.machine.WellFormed) (budget : Int) :
    ∃ event s', run budget .debugger s = .ok event s' ∧ s'.machine.WellFormed := by
  obtain ⟨k, event, s', hrun, -, hend, -⟩ := run_ends h budget
  refine ⟨event, s', hrun, ?_⟩
  cases hend with
  | spent => exact Engine.wellFormed_after h k
  | waits => exact Engine.wellFormed_after h k
  | stopped => exact Engine.wellFormed_after h k
  | fails => exact Engine.wellFormed_after h (k + 1)

theorem runFramesLeft_total (h : s.machine.WellFormed) (stop : Bool) (total : Int) (n : Nat) :
    ∃ event s', runFramesLeft .debugger stop total n s = .ok event s' ∧
      s'.machine.WellFormed := by
  induction n generalizing s with
  | zero => exact ⟨_, _, rfl, h⟩
  | succ n ih =>
    obtain ⟨event, s', hrun, hw⟩ := run_total h Settings.cyclesPerTick
    rw [runFramesLeft_succ]
    simp only [hrun]
    by_cases hgo : goesOn stop event = true
    · rw [if_pos hgo]
      exact ih hw.tick
    · rw [if_neg hgo]
      exact ⟨event, s', rfl, hw⟩

theorem runUntil_total (h : s.machine.WellFormed) (a budget : Int) :
    ∃ found s', runUntil a budget .debugger s = .ok found s' ∧ s'.machine.WellFormed := by
  have hc : (s.control (·.addBreakpoint a)).machine.WellFormed := h
  obtain ⟨event, s', hrun, hw⟩ := run_total hc budget
  simp only [runUntil, hrun]
  refine ⟨_, _, rfl, ?_⟩
  split
  · exact hw
  · exact hw

theorem wellFormed_apply (h : s.machine.WellFormed) (op : Operation) :
    (s.apply op).machine.WellFormed := by
  cases op with
  | load program =>
    simp only [apply, load]
    cases hl : s.machine.load program with
    | ok m => exact h.load hl
    | error e => exact h
  | poke a bytes => exact h.poke a bytes
  | step => exact wellFormed_left (step_total h)
  | run budget => exact wellFormed_left (run_total h budget)
  | runFrames frames stop => exact wellFormed_left (runFramesLeft_total h stop frames frames.toNat)
  | runUntil a budget => exact wellFormed_left (runUntil_total h a budget)
  | tick => exact h.tick
  | holdKey key held =>
    simp only [apply, Machine.holdKey]
    cases key.resolve with
    | ok k => exact h.hold k held
    | error e => exact h
  | takeFrame => exact h.setScreen s.machine.screen false
  | reset => exact .powerOn _
  | debug op => exact h

theorem wellFormed_start (random : RandomSource) (trace : Bool) :
    (start random trace).machine.WellFormed :=
  Machine.wellFormed_fresh

theorem wellFormed_play (h : s.machine.WellFormed) (ops : List Operation) :
    (s.play ops).machine.WellFormed := by
  induction ops generalizing s with
  | nil => exact h
  | cons op ops ih => exact ih (wellFormed_apply h op)

end Session
end Chip8
