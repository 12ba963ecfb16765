import Chip8.Proofs.Effect
import Chip8.Proofs.Operation

/-!
# Chip8.Proofs.Totality

Bounds and answers. A new session stays within the bounds whatever is done to it, and within the bounds
nothing is out of range: a cycle fails only for a cause that a program can give, and steps, runs,
frames and runs to an address always answer. How long the rows of a machine are, that a register or a
cell of memory is a byte and that a pixel is lit or not, is in their types and needs no theorem.

Main statement: `play_wellFormed_and_answers`.
-/

namespace Chip8

/-- The causes that a program can give: a word that is no instruction here, a call on a full stack or a
return on an empty one, and a store below the program area. -/
inductive Cause.OfProgram : Cause → Prop where
  | unknownOpcode (text : String) : OfProgram (.unknownOpcode text)
  | stackOverflow : OfProgram .stackOverflow
  | stackUnderflow : OfProgram .stackUnderflow
  | protectedWrite (target : Int) : OfProgram (.protectedWrite target)

theorem Machine.Fails.ofProgram {m : Machine} {cause : Cause} (h : m.Fails cause) :
    cause.OfProgram := by
  cases h with
  | undecoded => exact .unknownOpcode _
  | refused _ _ hr =>
    cases hr with
    | machineCode => exact .unknownOpcode _
    | underflow => exact .stackUnderflow
    | overflow => exact .stackOverflow
    | protectedWrite => exact .protectedWrite _

namespace Session

variable {s : Session}

/-- Nothing but a fault of the program goes wrong, and that becomes an event. -/
structure Answers (s : Session) : Prop where
  cycle : ∀ f e, Engine.step s.engine = .error f e →
    ∃ fault, f = .fault fault ∧ fault.cause.OfProgram
  step : ∃ event s', step s = .ok event s'
  run : ∀ budget, ∃ event s', run budget .debugger s = .ok event s'
  frames : ∀ frames stop, ∃ event s', runFrames frames stop .debugger s = .ok event s'
  runUntil : ∀ a budget, ∃ found s', runUntil a budget .debugger s = .ok found s'

theorem answers_of_wellFormed (h : s.machine.WellFormed) : s.Answers where
  cycle f e hs := by
    obtain ⟨cause, hc, rfl, -⟩ := Engine.step_error h hs
    exact ⟨_, rfl, (Machine.cycle_error_iff.mp hc).ofProgram⟩
  step := by
    obtain ⟨event, s', hs, -⟩ := step_total h
    exact ⟨event, s', hs⟩
  run budget := by
    obtain ⟨event, s', hs, -⟩ := run_total h budget
    exact ⟨event, s', hs⟩
  frames frames stop := by
    obtain ⟨event, s', hs, -⟩ := runFramesLeft_total h stop frames frames.toNat
    exact ⟨event, s', hs⟩
  runUntil a budget := by
    obtain ⟨found, s', hs, -⟩ := runUntil_total h a budget
    exact ⟨found, s', hs⟩

/-- **Every session that operations make of a new one is within the bounds, and every session within
the bounds answers.** -/
theorem play_wellFormed_and_answers :
    (∀ random trace ops, ((start random trace).play ops).machine.WellFormed) ∧
      ∀ s : Session, s.machine.WellFormed → s.Answers := by
  constructor
  · intro random trace ops
    exact wellFormed_play (wellFormed_start random trace) ops
  · intro s h
    exact answers_of_wellFormed h

/-- At the last word of memory, a store that was put there over an address below zero. -/
def storeAtLastWord : Session :=
  (start (.ofBytes #[]) true).play [.load [0x1F, 0xFE], .poke (-2) [0xFF, 0x55], .step]

theorem storeAtLastWord_answers :
    storeAtLastWord.machine.WellFormed ∧ storeAtLastWord.Answers := by
  have h : storeAtLastWord.machine.WellFormed :=
    play_wellFormed_and_answers.1 (.ofBytes #[]) true _
  exact ⟨h, play_wellFormed_and_answers.2 storeAtLastWord h⟩

end Session
end Chip8
