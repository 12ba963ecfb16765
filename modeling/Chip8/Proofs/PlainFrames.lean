import Chip8.Proofs.Frames
import Chip8.Proofs.KeyWait
import Chip8.Proofs.PlainStepping
import Chip8.Proofs.Timers

/-!
# Chip8.Proofs.PlainFrames

What frames come to when the debugger has nothing to say. `Engine.plainFrames` is the loop that a reader
has in mind, with no debugger and no session around it: so often, cycles up to the pace of the machine or
up to a key wait, and one tick.

`frames_interleave`: frames under an idle debugger are this loop, and end as it ends; under any debugger
frames behind completed frames are as many frames in a row; and frames that find a machine waiting for a
key only let its timers run.
-/

namespace Chip8

/-- No breakpoint, no condition and no request. -/
def Debugger.Idle (d : Debugger) : Prop :=
  d.OnlyBreakpoints ∧ d.breakpoints = []

theorem Debugger.Idle.ask {d : Debugger} (h : d.Idle) (m : Machine) (record : Array (Nat × Nat)) :
    Watch.debugger.hook.ask m (d.clearLast, record) = (true, d.clearLast, record) := by
  refine ask_of_allows (.inr ?_)
  rw [h.1.stop?_eq, h.2]
  rfl

namespace Engine

variable {σ : Type} {e f : Engine} {stop : Bool} {n : Nat}

/-- How cycles in a row, or frames, come to their end. -/
inductive Ends where
  | spent (e : Engine)
  | awaits (e : Engine)
  | failed (x : Failure) (e : Engine)

/-- Up to `n` cycles: fewer if one ends awaiting a key or fails. -/
def plainCycles : Nat → Engine → Ends
  | 0, e => .spent e
  | n + 1, e =>
    match step e with
    | .ok (some _) e => plainCycles n e
    | .ok none e => .awaits e
    | .error x e => .failed x e

/-- Up to `n` frames of cycles with a tick behind each: fewer if a cycle fails or, where a key wait is to
stop them, ends awaiting a key. -/
def plainFrames (stop : Bool) : Nat → Engine → Ends
  | 0, e => .spent e
  | n + 1, e =>
    match plainCycles Settings.cyclesPerTick e with
    | .spent e => plainFrames stop n (e.accept .tick)
    | .awaits e => if stop then .awaits e else plainFrames stop n (e.accept .tick)
    | .failed x e => .failed x e

theorem isAwaiting_of_spent (hn : 0 < n) (h : plainCycles n e = .spent f) :
    f.machine.isAwaiting = false := by
  induction n generalizing e with
  | zero => omega
  | succ n ih =>
    rw [plainCycles] at h
    split at h
    · rename_i hs
      cases n with
      | zero =>
        cases h
        exact isAwaiting_of_step hs
      | succ n => exact ih (Nat.succ_pos n) h
    · cases h
    · cases h

theorem isAwaiting_of_awaits (h : plainCycles n e = .awaits f) : f.machine.isAwaiting = true := by
  induction n generalizing e with
  | zero => cases h
  | succ n ih =>
    rw [plainCycles] at h
    split at h
    · exact ih h
    · rename_i hs
      cases h
      exact isAwaiting_of_step hs
    · cases h

/-- A bulk run that ends as plain cycles do. -/
def Runs (t : σ) (res : EStateM.Result Failure (Engine × σ) Nat) : Ends → Prop
  | .spent f => ∃ done, res = .ok done (f, t)
  | .awaits f => ∃ done, res = .ok done (f, t)
  | .failed x f => res = .error x (f, t)

theorem executeFrom_runs {hook : Hook σ} {t : σ} (hask : ∀ m, hook.ask m t = (true, t))
    (n done : Nat) (e : Engine) : Runs t (executeFrom hook n done e t) (plainCycles n e) := by
  induction n generalizing done e with
  | zero => exact ⟨done, rfl⟩
  | succ n ih =>
    simp only [executeFrom, plainCycles, hask]
    cases step e with
    | ok a f =>
      cases a with
      | some ins => exact ih (done + 1) f
      | none => exact ⟨done + 1, rfl⟩
    | error x f => rfl

end Engine

namespace Session

open Engine (Ends)

variable {s s' : Session} {stop : Bool} {n : Nat} {event : Event}

/-- A run of `n` cycles that ends as plain cycles do. -/
def RunsPlain (s : Session) (n : Nat) : Ends → Prop
  | .spent e => ∃ cycles, run n .debugger s =
      .ok (budgetSpent e.machine.pc n) ⟨e, s.debugger.clearLast, s.record, cycles⟩
  | .awaits e => ∃ cycles, run n .debugger s =
      .ok (awaitingKey e.machine.pc) ⟨e, s.debugger.clearLast, s.record, cycles⟩
  | .failed x e => ∃ cycles, run n .debugger s =
      fail x ⟨e, s.debugger.clearLast, s.record, cycles⟩

theorem runsPlain_of_idle (h : s.debugger.Idle) (hn : 0 < n) :
    s.RunsPlain n (s.engine.plainCycles n) := by
  have hnone : s.debugger.hasBreakpoint s.machine.pc = false := by
    simp only [Debugger.hasBreakpoint, h.2]
    rfl
  have hrun : run n .debugger s = runBulk .debugger n n (s.control Debugger.clearLast) := by
    rw [run_eq, if_neg (by simp [hnone])]
  have hruns := Engine.executeFrom_runs (fun m => h.ask m s.record) n 0 s.engine
  rw [runBulk_eq] at hrun
  simp only [control, Int.toNat_natCast, Engine.execute] at hrun
  generalize hends : s.engine.plainCycles n = ends at hruns ⊢
  cases ends with
  | spent e =>
    obtain ⟨done, hx⟩ := hruns
    rw [hx] at hrun
    simp only [outcome_of_spent (Engine.isAwaiting_of_spent hn hends)] at hrun
    exact ⟨_, hrun⟩
  | awaits e =>
    obtain ⟨done, hx⟩ := hruns
    rw [hx] at hrun
    simp only [outcome_of_awaiting (Engine.isAwaiting_of_awaits hends)] at hrun
    exact ⟨_, hrun⟩
  | failed x e =>
    rw [hruns] at hrun
    exact ⟨_, hrun⟩

/-- What a call of so many frames comes to if its frames end so. -/
inductive FramesEnd (frames : Int) (stop : Bool) :
    Ends → EStateM.Result Defect Session Event → Prop where
  | spent {e : Engine} {s : Session} : s.engine = e →
      FramesEnd frames stop (.spent e) (.ok (framesDone e.machine.pc frames) s)
  | awaits {e : Engine} {s : Session} : stop = true → s.engine = e →
      FramesEnd frames stop (.awaits e) (.ok (awaitingKey e.machine.pc) s)
  | faults {f : Fault} {e : Engine} {s : Session} : s.engine = e.noted [.stopped f] →
      FramesEnd frames stop (.failed (.fault f) e) (.ok (faulted e.machine.pc f) s)
  /-- Only out of the bounds. -/
  | defective {d : Defect} {e : Engine} {s : Session} : s.engine = e →
      FramesEnd frames stop (.failed (.defect d) e) (.error d s)

theorem framesEnd_of_idle (h : s.debugger.Idle) (total : Int) (stop : Bool) (n : Nat) :
    FramesEnd total stop (s.engine.plainFrames stop n)
      (runFramesLeft .debugger stop total n s) := by
  induction n generalizing s with
  | zero => exact .spent rfl
  | succ n ih =>
    have hframe := runsPlain_of_idle h (n := Settings.cyclesPerTick) (by decide)
    rw [runFramesLeft_succ, Engine.plainFrames]
    generalize s.engine.plainCycles Settings.cyclesPerTick = ends at hframe ⊢
    cases ends with
    | spent e =>
      obtain ⟨cycles, hrun⟩ := hframe
      rw [hrun]
      exact ih (s := tick ⟨e, s.debugger.clearLast, s.record, cycles⟩) h
    | awaits e =>
      obtain ⟨cycles, hrun⟩ := hframe
      rw [hrun]
      cases stop with
      | true => exact .awaits rfl rfl
      | false => exact ih (s := tick ⟨e, s.debugger.clearLast, s.record, cycles⟩) h
    | failed x e =>
      obtain ⟨cycles, hrun⟩ := hframe
      rw [hrun]
      cases x with
      | fault f => exact .faults (by simp only [note, Engine.noted, ← Array.push_eq_append])
      | defect d => exact .defective rfl

/-! ## Frames behind frames -/

/-- Frames that all complete are followed by further ones as if these belonged to the same call. -/
theorem runFramesLeft_add (a b : Nat) {total : Int}
    (h : runFramesLeft .debugger stop total a s = .ok event s')
    (hdone : event.reason = .maxCycles) (all : Int) :
    runFramesLeft .debugger stop all (a + b) s = runFramesLeft .debugger stop all b s' := by
  induction a generalizing s with
  | zero =>
    cases h
    rw [Nat.zero_add]
  | succ a ih =>
    rw [runFramesLeft_succ] at h
    rw [Nat.add_right_comm, runFramesLeft_succ]
    split at h
    · split at h
      · rename_i hgo
        rw [if_pos hgo]
        exact ih h
      · rename_i hgo
        cases h
        simp [goesOn, hdone] at hgo
    · cases h

/-- The number in the message does not matter to what is left. -/
theorem left_runFramesLeft (total total' : Int) (n : Nat) (s : Session) :
    left (runFramesLeft .debugger stop total n) s = left (runFramesLeft .debugger stop total' n) s := by
  induction n generalizing s with
  | zero => rfl
  | succ n ih =>
    simp only [left, runFramesLeft_succ]
    cases run Settings.cyclesPerTick .debugger s with
    | error d s' => rfl
    | ok event s' =>
      dsimp only
      cases goesOn stop event with
      | true => exact ih s'.tick
      | false => rfl

theorem left_runFrames_add (a b : Nat) (h : runFrames a stop .debugger s = .ok event s')
    (hdone : event.reason = .maxCycles) :
    left (runFrames b stop .debugger) s' = left (runFrames (a + b : Nat) stop .debugger) s := by
  have hadd := runFramesLeft_add a b h hdone b
  have hleft : left (runFramesLeft .debugger stop b (a + b)) s =
      left (runFrames (a + b : Nat) stop .debugger) s := left_runFramesLeft _ _ _ s
  rw [← hleft]
  simp only [left, hadd]
  rfl

/-! ## Frames while a key is awaited -/

theorem frames_unanswered {r : Int} (h : s.machine.awaiting = some r)
    (hk : ∀ key : Fin 16, s.machine.keypad[key] = false) (hdelay : 0 ≤ s.machine.delay)
    (hsound : 0 ≤ s.machine.sound) (total : Int) (n : Nat) :
    ∃ s', runFramesLeft .debugger false total n s = .ok (framesDone s.machine.pc total) s' ∧
      s'.engine = { s.engine with
        machine := s.machine.withTimers
          (max 0 (s.machine.delay - n)) (max 0 (s.machine.sound - n)) } ∧
      s'.cycles = s.cycles + n := by
  induction n generalizing s with
  | zero =>
    have hd : max 0 (s.machine.delay - (0 : Nat)) = s.machine.delay := by omega
    have hs : max 0 (s.machine.sound - (0 : Nat)) = s.machine.sound := by omega
    refine ⟨s, rfl, ?_, rfl⟩
    rw [hd, hs]
    rfl
  | succ n ih =>
    obtain ⟨hd, hdn⟩ := Machine.countDown_of_nonneg hdelay n
    obtain ⟨hs, hsn⟩ := Machine.countDown_of_nonneg hsound n
    obtain ⟨s', hrest, hengine, hcycles⟩ :=
      ih (s := tick ⟨s.engine, s.debugger.clearLast, s.record, s.cycles + 1⟩) h hk hd hs
    have hframe : run Settings.cyclesPerTick .debugger s = .ok (awaitingKey s.machine.pc)
        ⟨s.engine, s.debugger.clearLast, s.record, s.cycles + 1⟩ := run_unanswered h hk _
    refine ⟨s', ?_, ?_, ?_⟩
    · rw [runFramesLeft_succ, hframe]
      exact hrest
    · rw [← hdn, ← hsn]
      exact hengine
    · rw [hcycles]
      exact Nat.add_right_comm s.cycles 1 n

/-- **Frames are cycles and ticks, interleaved.** Under an idle debugger they are the plain loop, of any
machine within its bounds or not; frames that all complete may be split in any way; and while a key is
awaited that nobody holds they are ticks. -/
theorem frames_interleave :
    (∀ s : Session, s.debugger.Idle → ∀ (frames : Int) (stop : Bool),
      FramesEnd frames stop (s.engine.plainFrames stop frames.toNat)
        (runFrames frames stop .debugger s)) ∧
    (∀ (s : Session) (stop : Bool) (a b : Nat) (event : Event) (s' : Session),
      runFrames a stop .debugger s = .ok event s' → event.reason = .maxCycles →
      left (runFrames b stop .debugger) s' = left (runFrames (a + b : Nat) stop .debugger) s) ∧
    ∀ (s : Session) (r : Int), s.machine.awaiting = some r →
      (∀ key : Fin 16, s.machine.keypad[key] = false) →
      0 ≤ s.machine.delay → 0 ≤ s.machine.sound → ∀ frames : Nat,
      ∃ s', runFrames frames false .debugger s = .ok (framesDone s.machine.pc frames) s' ∧
        s'.engine = { s.engine with
          machine := s.machine.withTimers
            (max 0 (s.machine.delay - frames)) (max 0 (s.machine.sound - frames)) } ∧
        s'.cycles = s.cycles + frames := by
  refine ⟨?_, ?_, ?_⟩
  · intro s h frames stop
    exact framesEnd_of_idle h frames stop frames.toNat
  · intro s stop a b event s' h hdone
    exact left_runFrames_add a b h hdone
  · intro s r h hk hdelay hsound frames
    exact frames_unanswered h hk hdelay hsound frames frames

/-- The delay timer is set to five before a key is waited for. -/
def timedWait : Session :=
  ofEngine {
    machine := { Machine.fresh with
      memory := Memory.fresh.store Memory.programStart [0x60, 0x05, 0xF0, 0x15, 0xF5, 0x0A] }
    random := .ofBytes #[]
    trace := false
    notes := #[] }

/-- The reason of the event that a computation answers with. -/
def reason? : EStateM.Result Defect Session Event → Option Reason
  | .ok event _ => some event.reason
  | .error _ _ => none

/-- The wait has begun, and the delay timer stands at four. -/
def timedWaitBegun : Session :=
  left (runFrames 1 false .debugger) timedWait

theorem timedWait_frames :
    timedWait.debugger.Idle ∧
      FramesEnd 3 false (timedWait.engine.plainFrames false 3)
        (runFrames 3 false .debugger timedWait) ∧
      (∃ event, runFrames 1 false .debugger timedWait = .ok event timedWaitBegun ∧
        event.reason = .maxCycles) ∧
      left (runFrames 2 false .debugger) timedWaitBegun =
        left (runFrames 3 false .debugger) timedWait ∧
      timedWaitBegun.machine.awaiting = some 5 ∧
      ∃ s', runFrames 2 false .debugger timedWaitBegun =
          .ok (framesDone timedWaitBegun.machine.pc 2) s' ∧
        s'.engine.machine = timedWaitBegun.machine.withTimers 2 0 ∧ s'.cycles = 5 := by
  have hidle : timedWait.debugger.Idle := ⟨⟨rfl, fun c hc => by cases hc⟩, rfl⟩
  have hwait : timedWaitBegun.machine.awaiting = some 5 := by decide +kernel
  have hdelay : timedWaitBegun.machine.delay = 4 := by decide +kernel
  have hsound : timedWaitBegun.machine.sound = 0 := by decide +kernel
  have hcycles : timedWaitBegun.cycles = 3 := by decide +kernel
  have hdone : reason? (runFrames 1 false .debugger timedWait) = some .maxCycles := by
    decide +kernel
  obtain ⟨hplain, hsplit, hticks⟩ := frames_interleave
  obtain ⟨event, hone, hreason⟩ : ∃ event, runFrames 1 false .debugger timedWait =
      .ok event timedWaitBegun ∧ event.reason = .maxCycles := by
    cases hx : runFrames 1 false .debugger timedWait with
    | ok event s' =>
      rw [hx] at hdone
      have hs : timedWaitBegun = s' := by simp only [timedWaitBegun, left, hx]
      exact ⟨event, by rw [hs], Option.some.inj hdone⟩
    | error d s' =>
      rw [hx] at hdone
      cases hdone
  obtain ⟨s', htwo, hengine, hcount⟩ := hticks timedWaitBegun 5 hwait (by decide +kernel)
    (by omega) (by omega) 2
  have hmachine := congrArg Engine.machine hengine
  simp only [hdelay, hsound] at hmachine
  refine ⟨hidle, hplain timedWait hidle 3 false, ⟨event, hone, hreason⟩,
    hsplit timedWait false 1 2 event timedWaitBegun hone hreason, hwait, s', htwo, hmachine, ?_⟩
  omega

end Session
end Chip8
