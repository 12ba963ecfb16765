import Chip8.Proofs.Deeds

/-!
# Chip8.Proofs.Seen

What can be seen of a session: the machine with its random bytes, the debugger, and the count of cycles.
Sessions that are the same in these (`Session.SameSeen`) may trace or not, and may have noted different
things; but every deed gets the same reply of both, and leaves them the same (`undergo_congr`). None of
this asks the machine to be within its bounds.
-/

namespace Chip8

/-- The same answer or the same failure, in states that are related. -/
inductive Alike {α ε σ : Type} (R : σ → σ → Prop) :
    EStateM.Result ε σ α → EStateM.Result ε σ α → Prop where
  | ok {a : α} {s t : σ} : R s t → Alike R (.ok a s) (.ok a t)
  | error {x : ε} {s t : σ} : R s t → Alike R (.error x s) (.error x t)

/-- The hook answers the same in related states, and leaves related states. -/
def Hook.Respects {σ : Type} (hook : Hook σ) (R : σ → σ → Prop) : Prop :=
  ∀ m s t, R s t → (hook.ask m s).1 = (hook.ask m t).1 ∧ R (hook.ask m s).2 (hook.ask m t).2

/-- The debugger does not go by what is recorded. -/
theorem Watch.respects_debugger : debugger.hook.Respects fun p q => p.1 = q.1 := by
  rintro m ⟨d, record⟩ ⟨_, record'⟩ rfl
  simp only [Hook.ask]
  split <;> exact ⟨rfl, rfl⟩

/-- Of an engine a bulk run depends on the core only, and of the state of its hook on what the hook goes by. -/
theorem Engine.executeFrom_congr {σ : Type} {hook : Hook σ} {R : σ → σ → Prop} (hr : hook.Respects R)
    {e f : Engine} (h : e.core = f.core) {s t : σ} (hst : R s t) (budget done : Nat) :
    Alike (fun p q => p.1.core = q.1.core ∧ R p.2 q.2) (executeFrom hook budget done e s)
      (executeFrom hook budget done f t) := by
  induction budget generalizing done e f s t with
  | zero => exact .ok ⟨h, hst⟩
  | succ budget ih =>
    obtain ⟨hm, -⟩ := core_eq_iff.mp h
    obtain ⟨hgo, hst⟩ := hr f.machine s t hst
    simp only [executeFrom, hm]
    generalize hook.ask f.machine s = p at hgo hst ⊢
    generalize hook.ask f.machine t = q at hgo hst ⊢
    obtain ⟨go, s⟩ := p
    obtain ⟨go', t⟩ := q
    obtain rfl : go = go' := hgo
    cases go with
    | false => exact .ok ⟨h, hst⟩
    | true =>
      have hs := step_congr h
      dsimp only
      generalize step e = x at hs ⊢
      generalize step f = y at hs ⊢
      cases hs with
      | @ok a _ _ h =>
        cases a with
        | none => exact .ok ⟨h, hst⟩
        | some ins => exact ih h hst (done + 1)
      | error h => exact .error ⟨h, hst⟩

namespace Session

open Engine (ended)

variable {s t : Session}

structure SameSeen (s t : Session) : Prop where
  core : s.engine.core = t.engine.core
  debugger : s.debugger = t.debugger
  cycles : s.cycles = t.cycles

namespace SameSeen

theorem machine (h : s.SameSeen t) : s.machine = t.machine := congrArg Prod.fst h.core

theorem random (h : s.SameSeen t) : s.engine.random = t.engine.random := congrArg Prod.snd h.core

theorem change (h : s.SameSeen t) (f : Machine → Machine) : (s.change f).SameSeen (t.change f) :=
  ⟨Engine.core_eq_iff.mpr ⟨congrArg f h.machine, h.random⟩, h.debugger, h.cycles⟩

theorem control (h : s.SameSeen t) (f : Debugger → Debugger) : (s.control f).SameSeen (t.control f) :=
  ⟨h.core, congrArg f h.debugger, h.cycles⟩

theorem note (h : s.SameSeen t) (n n' : Note) : (s.note n).SameSeen (t.note n') :=
  ⟨h.core, h.debugger, h.cycles⟩

theorem count (h : s.SameSeen t) (n : Nat) :
    { s with cycles := s.cycles + n }.SameSeen { t with cycles := t.cycles + n } :=
  ⟨h.core, h.debugger, congrArg (· + n) h.cycles⟩

end SameSeen

/-! ## Runs -/

theorem fail_congr (h : s.SameSeen t) (f : Failure) : Alike SameSeen (fail f s) (fail f t) := by
  cases f with
  | fault f =>
    simp only [fail, h.machine]
    exact .ok (h.note _ _)
  | defect d => exact .error h

theorem step_congr (h : s.SameSeen t) : Alike SameSeen (step s) (step t) := by
  have hs := Engine.step_congr h.core
  simp only [step_session_eq, h.machine]
  generalize Engine.step s.engine = x at hs ⊢
  generalize Engine.step t.engine = y at hs ⊢
  cases hs with
  | @ok a e f hc =>
    have hpc : e.machine.pc = f.machine.pc := congrArg (·.1.pc) hc
    have hcount : (⟨e, s.debugger, s.record, s.cycles + 1⟩ : Session).SameSeen
        ⟨f, t.debugger, t.record, t.cycles + 1⟩ := ⟨hc, h.debugger, congrArg (· + 1) h.cycles⟩
    cases a with
    | none => exact .ok hcount
    | some ins =>
      dsimp only
      rw [hpc]
      exact .ok hcount
  | @error x e f hc =>
    have hfail : (⟨e, s.debugger, s.record, s.cycles⟩ : Session).SameSeen
        ⟨f, t.debugger, t.record, t.cycles⟩ := ⟨hc, h.debugger, h.cycles⟩
    exact fail_congr hfail x

theorem cycle_congr (h : s.SameSeen t) : Alike SameSeen (cycle s) (cycle t) := by
  have hs := Engine.step_congr h.core
  simp only [cycle]
  generalize Engine.step s.engine = x at hs ⊢
  generalize Engine.step t.engine = y at hs ⊢
  cases hs with
  | ok hc => exact .ok ⟨hc, h.debugger, h.cycles⟩
  | error hc => exact .error ⟨hc, h.debugger, h.cycles⟩

theorem execute_congr (h : s.SameSeen t) (budget : Int) :
    Alike SameSeen (execute .debugger budget s) (execute .debugger budget t) := by
  have hstate : (s.debugger, s.record).1 = (s.debugger, t.record).1 := rfl
  have hx := Engine.executeFrom_congr Watch.respects_debugger h.core hstate budget.toNat 0
  simp only [execute, Engine.execute, ← h.debugger]
  generalize Engine.executeFrom Watch.debugger.hook budget.toNat 0 s.engine (s.debugger, s.record) = x
    at hx ⊢
  generalize Engine.executeFrom Watch.debugger.hook budget.toNat 0 t.engine (s.debugger, t.record) = y
    at hx ⊢
  cases hx with
  | ok hp => exact .ok ⟨hp.1, hp.2, h.cycles⟩
  | error hp => exact .error ⟨hp.1, hp.2, h.cycles⟩

/-- A bulk run with its event is one without it whose cycles are counted afterwards. -/
theorem runBulk_eq_execute (watch : Watch) (budget cycles : Int) (s : Session) :
    runBulk watch budget cycles s =
      match execute watch cycles s with
      | .ok done s' =>
        .ok (outcome budget { s' with cycles := s'.cycles + done })
          { s' with cycles := s'.cycles + done }
      | .error f s' => fail f s' := by
  simp only [runBulk_eq, execute]
  cases Engine.execute watch.hook cycles.toNat s.engine (s.debugger, s.record) <;> rfl

theorem outcome_congr (h : s.SameSeen t) (budget : Int) : outcome budget s = outcome budget t := by
  simp only [outcome, h.debugger, h.machine]

theorem runBulk_congr (h : s.SameSeen t) (budget cycles : Int) :
    Alike SameSeen (runBulk .debugger budget cycles s) (runBulk .debugger budget cycles t) := by
  have hx := execute_congr h cycles
  simp only [runBulk_eq_execute]
  generalize execute .debugger cycles s = x at hx ⊢
  generalize execute .debugger cycles t = y at hx ⊢
  cases hx with
  | ok h =>
    dsimp only
    rw [outcome_congr (h.count _)]
    exact .ok (h.count _)
  | error h => exact fail_congr h _

theorem run_congr (h : s.SameSeen t) (budget : Int) :
    Alike SameSeen (run budget .debugger s) (run budget .debugger t) := by
  have hclear := h.control Debugger.clearLast
  have hs := step_congr hclear
  simp only [run_eq, h.debugger, h.machine]
  split
  · generalize step (s.control Debugger.clearLast) = x at hs ⊢
    generalize step (t.control Debugger.clearLast) = y at hs ⊢
    cases hs with
    | ok h =>
      dsimp only
      split
      · exact runBulk_congr h budget (budget - 1)
      · exact .ok h
    | error h => exact .error h
  · exact runBulk_congr hclear budget budget

theorem runFramesLeft_congr (h : s.SameSeen t) (stop : Bool) (total : Int) (n : Nat) :
    Alike SameSeen (runFramesLeft .debugger stop total n s)
      (runFramesLeft .debugger stop total n t) := by
  induction n generalizing s t with
  | zero =>
    have hdone (s : Session) : runFramesLeft .debugger stop total 0 s =
        .ok (framesDone s.machine.pc total) s := rfl
    rw [hdone, hdone, h.machine]
    exact .ok h
  | succ n ih =>
    have hr := run_congr h Settings.cyclesPerTick
    simp only [runFramesLeft_succ]
    generalize run Settings.cyclesPerTick .debugger s = x at hr ⊢
    generalize run Settings.cyclesPerTick .debugger t = y at hr ⊢
    cases hr with
    | ok h =>
      dsimp only
      split
      · exact ih (h.change Machine.tick)
      · exact .ok h
    | error h => exact .error h

theorem runUntil_congr (h : s.SameSeen t) (a budget : Int) :
    Alike SameSeen (runUntil a budget .debugger s) (runUntil a budget .debugger t) := by
  have hr := run_congr (h.control (·.addBreakpoint a)) budget
  simp only [runUntil, h.debugger]
  generalize run budget .debugger (s.control (·.addBreakpoint a)) = x at hr ⊢
  generalize run budget .debugger (t.control (·.addBreakpoint a)) = y at hr ⊢
  cases hr with
  | ok h =>
    dsimp only
    split
    · exact .ok h
    · exact .ok (h.control _)
  | error h =>
    dsimp only
    split
    · exact .error h
    · exact .error (h.control _)

/-! ## Deeds -/

section Results

variable {α ε : Type} {x y : EStateM.Result ε Session α}

theorem answered_congr (h : Alike SameSeen x y) : answered x = answered y := by
  cases h <;> rfl

theorem ended_congr (h : Alike SameSeen x y) : (ended x).SameSeen (ended y) := by
  cases h <;> assumption

end Results

theorem left_congr {α : Type} {c : Control α} (h : Alike SameSeen (c s) (c t)) :
    (left c s).SameSeen (left c t) := by
  simp only [left]
  generalize c s = x at h ⊢
  generalize c t = y at h ⊢
  cases h <;> assumption

/-- The same refusal, or sessions that are the same. -/
inductive LoadedAlike {ε : Type} : Except ε Session → Except ε Session → Prop where
  | ok {s t : Session} : s.SameSeen t → LoadedAlike (.ok s) (.ok t)
  | error {x : ε} : LoadedAlike (.error x) (.error x)

theorem load_congr (h : s.SameSeen t) (program : List UInt8) :
    LoadedAlike (s.load program) (t.load program) := by
  simp only [load, h.machine]
  cases t.machine.load program with
  | ok m => exact .ok ((h.change _).note _ _)
  | error x => exact .error

theorem loadFile_congr (h : s.SameSeen t) (files : Files) (path : String) :
    LoadedAlike (s.loadFile files path) (t.loadFile files path) := by
  simp only [loadFile]
  cases files (Path.normal path) with
  | missing | blocked | directory | tooLong => exact .error
  | file program =>
    have hl := load_congr h program
    dsimp only
    generalize s.load program = x at hl ⊢
    generalize t.load program = y at hl ⊢
    cases hl with
    | ok h => exact .ok (h.note _ _)
    | error => exact .error

/-- **Nothing that is noted down matters.** -/
theorem undergo_congr (h : s.SameSeen t) (d : Deed) :
    s.reply d = t.reply d ∧ (s.undergo d).SameSeen (t.undergo d) := by
  cases d with
  | loadFile files path =>
    have hl := loadFile_congr h files path
    simp only [reply, undergo]
    generalize s.loadFile files path = x at hl ⊢
    generalize t.loadFile files path = y at hl ⊢
    cases hl with
    | ok h => exact ⟨rfl, h⟩
    | error => exact ⟨rfl, h⟩
  | releaseAll => exact ⟨rfl, h.change Machine.releaseAll⟩
  | cycle =>
    have hc := cycle_congr h
    exact ⟨congrArg Reply.cycled (answered_congr hc), ended_congr hc⟩
  | execute budget =>
    have hx := execute_congr h budget
    exact ⟨congrArg Reply.counted (answered_congr hx), ended_congr hx⟩
  | operation op =>
    cases op with
    | load program =>
      have hl := load_congr h program
      simp only [reply, undergo, apply]
      generalize s.load program = x at hl ⊢
      generalize t.load program = y at hl ⊢
      cases hl with
      | ok h => exact ⟨rfl, h⟩
      | error => exact ⟨rfl, h⟩
    | poke a bytes => exact ⟨rfl, h.change (·.poke a bytes)⟩
    | step =>
      have hs := step_congr h
      exact ⟨congrArg Reply.event (answered_congr hs), left_congr hs⟩
    | run budget =>
      have hr := run_congr h budget
      exact ⟨congrArg Reply.event (answered_congr hr), left_congr hr⟩
    | runFrames frames stop =>
      have hr := runFramesLeft_congr h stop frames frames.toNat
      exact ⟨congrArg Reply.event (answered_congr hr), left_congr hr⟩
    | runUntil a budget =>
      have hr := runUntil_congr h a budget
      exact ⟨congrArg Reply.found (answered_congr hr), left_congr hr⟩
    | tick => exact ⟨rfl, h.change Machine.tick⟩
    | holdKey key held =>
      refine ⟨by simp only [reply, h.machine], ?_⟩
      simp only [undergo, apply, h.machine]
      cases t.machine.holdKey key held with
      | ok m => exact h.change fun _ => m
      | error x => exact h
    | takeFrame =>
      have hpending : s.takeFrame.1 = t.takeFrame.1 := congrArg Machine.drawn h.machine
      exact ⟨congrArg Reply.pending hpending, h.change ({ · with drawn := false })⟩
    | reset =>
      refine ⟨rfl, ?_, congrArg (·.clearRequest.clearLast) h.debugger, rfl⟩
      exact (h.change Machine.powerOn).core
    | debug op =>
      refine ⟨by simp only [reply, h.machine, h.debugger], ?_⟩
      simp only [undergo, apply, h.machine]
      exact h.control fun d => op.apply t.machine d

theorem undergoAll_congr (h : s.SameSeen t) (deeds : List Deed) :
    (s.undergoAll deeds).SameSeen (t.undergoAll deeds) := by
  induction deeds generalizing s t with
  | nil => exact h
  | cons d deeds ih => exact ih (undergo_congr h d).2

end Session
end Chip8
