import Chip8.Proofs.Operation
import Mathlib.Algebra.GroupWithZero.Nat

/-!
# Chip8.Proofs.Accounting

The count of a session against the cycles that complete. Operations are made of stretches: single
steps and bulk runs, each given by the engines in which its cycles begin. A stretch is counted whole or,
if one of its cycles fails, not at all.

`cycles_play`: after any operations on a new session the count is that of the stretches since the last
reset. It is the number of cycles that completed if and only if no stretch failed after a completed
cycle.
-/

namespace Chip8
namespace Session

variable {s : Session} {t : List Engine} {ts : List (List Engine)}

def stretches (s : Session) : Operation → List (List Engine)
  | .step => [[s.engine]]
  | .run budget => s.runStretches budget
  | .runFrames frames stop =>
    (frameStarts stop frames.toNat s).flatMap (runStretches Settings.cyclesPerTick)
  | .runUntil a budget => (s.control (·.addBreakpoint a)).runStretches budget
  | .load _ | .poke .. | .tick | .holdKey .. | .takeFrame | .reset | .debug _ => []

/-- The stretches since the last reset after an operation, those before it being `ts`. -/
def enter (s : Session) (ts : List (List Engine)) : Operation → List (List Engine)
  | .reset => []
  | op => ts ++ s.stretches op

/-- The stretches since the last reset after some operations, those before them being `ts`. -/
def ledger (s : Session) (ts : List (List Engine)) : List Operation → List (List Engine)
  | [] => ts
  | op :: ops => ledger (s.apply op) (s.enter ts op) ops

/-- What a stretch adds to the count. -/
def counted (t : List Engine) : Nat :=
  if t.all Engine.completes then t.length else 0

def total (ts : List (List Engine)) : Nat :=
  (ts.map counted).sum

def completed (ts : List (List Engine)) : Nat :=
  ts.flatten.countP Engine.completes

/-- A stretch fails after a completed cycle. -/
def Loses (t : List Engine) : Prop :=
  (∃ e ∈ t, e.completes = true) ∧ ∃ e ∈ t, e.completes = false

/-! ## Stretches -/

theorem enter_of_ne {op : Operation} (hop : op ≠ .reset) :
    s.enter ts op = ts ++ s.stretches op := by
  rw [enter]
  exact hop

theorem counted_of_all (h : t.all Engine.completes = true) : counted t = t.length :=
  if_pos h

theorem counted_of_not_all (h : t.all Engine.completes = false) : counted t = 0 := by
  rw [counted, h]
  rfl

theorem total_append (ts us : List (List Engine)) : total (ts ++ us) = total ts + total us := by
  rw [total, List.map_append, List.sum_append]
  rfl

theorem total_cons (t : List Engine) (ts : List (List Engine)) :
    total (t :: ts) = counted t + total ts := rfl

theorem total_singleton (t : List Engine) : total [t] = counted t :=
  Nat.add_zero _

theorem counted_le (t : List Engine) : counted t ≤ t.countP Engine.completes := by
  cases h : t.all Engine.completes with
  | true =>
    have hc := List.countP_eq_length.mpr (List.all_eq_true.mp h)
    exact Nat.le_of_eq ((counted_of_all h).trans hc.symm)
  | false =>
    rw [counted_of_not_all h]
    exact Nat.zero_le _

theorem counted_eq_iff (t : List Engine) :
    counted t = t.countP Engine.completes ↔ ¬Loses t := by
  cases h : t.all Engine.completes with
  | true =>
    have hall := List.all_eq_true.mp h
    rw [counted_of_all h, List.countP_eq_length.mpr hall]
    refine iff_of_true rfl ?_
    rintro ⟨-, e, he, hf⟩
    rw [hall e he] at hf
    cases hf
  | false =>
    -- counted as nothing, so right only if nothing completed
    obtain ⟨e, he, hf⟩ := List.all_eq_false.mp h
    have hf : e.completes = false := by simpa using hf
    rw [counted_of_not_all h, eq_comm, List.countP_eq_zero]
    constructor
    · rintro hnone ⟨⟨e', he', ht⟩, -⟩
      exact hnone e' he' ht
    · intro hno e' he' ht
      exact hno ⟨⟨e', he', ht⟩, e, he, hf⟩

theorem total_le (ts : List (List Engine)) : total ts ≤ completed ts := by
  induction ts with
  | nil => exact Nat.le_refl 0
  | cons t ts ih =>
    have ht := counted_le t
    simp only [total, completed, List.map_cons, List.sum_cons, List.flatten_cons,
      List.countP_append] at ih ⊢
    omega

theorem total_eq_iff (ts : List (List Engine)) : total ts = completed ts ↔ ∀ t ∈ ts, ¬Loses t := by
  induction ts with
  | nil => exact iff_of_true rfl fun t ht => by cases ht
  | cons t ts ih =>
    have ht := counted_le t
    have hts := total_le ts
    rw [List.forall_mem_cons, ← counted_eq_iff, ← ih]
    simp only [total, completed, List.map_cons, List.sum_cons, List.flatten_cons,
      List.countP_append] at hts ⊢
    omega

/-! ## What operations count -/

theorem cycles_left_fail (f : Failure) (s : Session) : (left (fail f) s).cycles = s.cycles := by
  cases f with
  | fault f => rfl
  | defect d => rfl

theorem cycles_left_step (s : Session) :
    (left step s).cycles = s.cycles + counted [s.engine] := by
  rw [left, step_session_eq]
  cases hs : Engine.step s.engine with
  | ok a e =>
    have hc : counted [s.engine] = 1 := by
      simp only [counted, List.all_cons, Engine.completes_of_ok hs]
      rfl
    rw [hc]
    cases a with
    | some ins => rfl
    | none => rfl
  | error f e =>
    have hc : counted [s.engine] = 0 := by
      simp only [counted, List.all_cons, Engine.completes_of_error hs]
      rfl
    rw [hc]
    exact cycles_left_fail f _

theorem cycles_left_runBulk (budget cycles : Int) (s : Session) :
    (left (runBulk .debugger budget cycles) s).cycles =
      s.cycles + counted (s.bulkStretch cycles) := by
  rw [left, runBulk_eq]
  cases hx : Engine.execute Watch.debugger.hook cycles.toNat s.engine (s.debugger, s.record) with
  | ok done p =>
    obtain ⟨hn, hall⟩ := Engine.executeFrom_ok hx
    rw [bulkStretch, counted_of_all hall, hn, Nat.zero_add]
  | error f p =>
    rw [bulkStretch, counted_of_not_all (Engine.executeFrom_error hx)]
    exact cycles_left_fail f _

theorem cycles_left_run (budget : Int) (s : Session) :
    (left (run budget .debugger) s).cycles = s.cycles + total (s.runStretches budget) := by
  rw [left, run_eq, runStretches]
  by_cases hp : 0 < budget ∧ s.debugger.hasBreakpoint s.machine.pc
  · rw [if_pos hp, if_pos hp]
    have hstep := cycles_left_step (s.control Debugger.clearLast)
    rw [left] at hstep
    cases hs : step (s.control Debugger.clearLast) with
    | ok event s' =>
      rw [hs] at hstep
      have hcycles : s'.cycles = s.cycles + counted [s.engine] := hstep
      dsimp only
      by_cases hr : event.reason = .step
      · have hbulk := cycles_left_runBulk budget (budget - 1) s'
        rw [left] at hbulk
        rw [if_pos hr, if_pos hr, hbulk, hcycles, total_cons, total_singleton, Nat.add_assoc]
      · rw [if_neg hr, if_neg hr, total_singleton]
        exact hcycles
    | error d s' =>
      rw [hs] at hstep
      rw [total_singleton]
      exact hstep
  · rw [if_neg hp, if_neg hp, total_singleton]
    exact cycles_left_runBulk budget budget (s.control Debugger.clearLast)

theorem cycles_left_runFramesLeft (stop : Bool) (total' : Int) (n : Nat) (s : Session) :
    (left (runFramesLeft .debugger stop total' n) s).cycles =
      s.cycles +
        total ((frameStarts stop n s).flatMap (runStretches Settings.cyclesPerTick)) := by
  induction n generalizing s with
  | zero => rfl
  | succ n ih =>
    have hrun := cycles_left_run Settings.cyclesPerTick s
    rw [left, runFramesLeft_succ, frameStarts, List.flatMap_cons, total_append, ← Nat.add_assoc,
      ← hrun, left]
    cases run Settings.cyclesPerTick .debugger s with
    | ok event s' =>
      dsimp only
      by_cases hgo : goesOn stop event = true
      · have hrest := ih s'.tick
        rw [left] at hrest
        rw [if_pos hgo, if_pos hgo, hrest]
        rfl
      · rw [if_neg hgo, if_neg hgo]
        rfl
    | error d s' => rfl

theorem cycles_left_runUntil (a budget : Int) (s : Session) :
    (left (runUntil a budget .debugger) s).cycles =
      s.cycles + total ((s.control (·.addBreakpoint a)).runStretches budget) := by
  have hrun := cycles_left_run budget (s.control (·.addBreakpoint a))
  have hrestore (s' : Session) :
      (if s.debugger.hasBreakpoint a then s' else s'.control (·.removeBreakpoint a)).cycles =
        s'.cycles := by
    split <;> rfl
  refine Eq.trans ?_ hrun
  simp only [left, runUntil]
  cases run budget .debugger (s.control (·.addBreakpoint a)) with
  | ok event s' => exact hrestore s'
  | error d s' => exact hrestore s'

theorem cycles_apply {op : Operation} (hop : op ≠ .reset) :
    (s.apply op).cycles = s.cycles + total (s.stretches op) := by
  cases op with
  | step =>
    rw [stretches, total_singleton]
    exact cycles_left_step s
  | run budget => exact cycles_left_run budget s
  | runFrames frames stop => exact cycles_left_runFramesLeft stop frames frames.toNat s
  | runUntil a budget => exact cycles_left_runUntil a budget s
  | load program =>
    simp only [apply, load]
    cases s.machine.load program with
    | ok m => rfl
    | error e => rfl
  | holdKey key held =>
    simp only [apply]
    cases s.machine.holdKey key held with
    | ok m => rfl
    | error e => rfl
  | poke a bytes => rfl
  | tick => rfl
  | takeFrame => rfl
  | debug op => rfl
  | reset => exact absurd rfl hop

theorem cycles_enter (h : s.cycles = total ts) (op : Operation) :
    (s.apply op).cycles = total (s.enter ts op) := by
  by_cases hop : op = .reset
  · subst hop
    rfl
  · rw [enter_of_ne hop, total_append, ← h]
    exact cycles_apply hop

theorem cycles_play_ledger (h : s.cycles = total ts) (ops : List Operation) :
    (s.play ops).cycles = total (s.ledger ts ops) := by
  induction ops generalizing s ts with
  | nil => exact h
  | cons op ops ih => exact ih (cycles_enter h op)

/-- **Cycle accounting.** A stretch is counted unless it fails, so the count is right unless one fails
after a completed cycle. -/
theorem cycles_play (random : RandomSource) (trace : Bool) (ops : List Operation) :
    let ts := (start random trace).ledger [] ops
    let cycles := ((start random trace).play ops).cycles
    cycles = total ts ∧ (cycles = completed ts ↔ ∀ t ∈ ts, ¬Loses t) := by
  intro ts cycles
  have hcycles : cycles = total ts := cycles_play_ledger rfl ops
  refine ⟨hcycles, ?_⟩
  rw [hcycles]
  exact total_eq_iff ts

/-- A load that completes and a word that is no instruction, run together: the load is not counted. -/
theorem cycles_play_lost :
    let ops : List Operation := [.load [0x60, 0x01, 0xFF, 0xFF], .run 100]
    let s := start (.ofBytes #[]) false
    (s.play ops).cycles = 0 ∧ completed (s.ledger [] ops) = 1 := by
  decide +kernel

end Session
end Chip8
