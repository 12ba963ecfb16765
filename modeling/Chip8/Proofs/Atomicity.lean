import Chip8.Proofs.Stepping

/-!
# Chip8.Proofs.Atomicity

A cycle that fails changes nothing.

`failed_cycle_atomic`: within the bounds a failing cycle, polling or not, leaves the machine and the
position among the random bytes as they were, and what it fails with is a fault at the program
counter that names the word there. A bulk run that fails has completed some cycles in a row, and
leaves what they made.
-/

namespace Chip8
namespace Engine

variable {σ : Type} {e e' : Engine}

theorem step_error_atomic (h : e.machine.WellFormed) {f : Failure} (hs : step e = .error f e') :
    e'.machine = e.machine ∧ e'.random = e.random ∧
      ∃ cause, f = .fault ⟨cause, some e.machine.pc, some e.machine.word⟩ := by
  obtain ⟨cause, -, rfl, rfl⟩ := step_error h hs
  exact ⟨rfl, rfl, cause, rfl⟩

/-- A bulk run fails in the cycle after those that it completed. -/
theorem execute_error {hook : Hook σ} {n : Nat} {s s' : σ} {f : Failure}
    (hx : execute hook n e s = .error f (e', s')) :
    ∃ k < n, (∀ j < k, ∃ ins, step (e.after j) = .ok (some ins) (e.after (j + 1))) ∧
      step (e.after k) = .error f e' := by
  have hb := execute_bulk hook n e s
  rw [hx] at hb
  cases hb with
  | @fails k e₁ _ _ _ _ hk hc _ hf =>
    rw [hc.eq_after] at hf
    exact ⟨k, hk, hc.step_after, hf⟩

/-- A failing cycle changes nothing and names its place and its word; a failing bulk run leaves what
the cycles before the failing one made. -/
theorem failed_cycle_atomic (e : Engine) (h : e.machine.WellFormed) (hook : Hook σ) (n : Nat)
    (s : σ) :
    (∀ f e', step e = .error f e' →
      e'.machine = e.machine ∧ e'.random = e.random ∧
        ∃ cause, f = .fault ⟨cause, some e.machine.pc, some e.machine.word⟩) ∧
    ∀ f e' s', execute hook n e s = .error f (e', s') →
      ∃ k < n, (∀ j < k, ∃ ins, step (e.after j) = .ok (some ins) (e.after (j + 1))) ∧
        step (e.after k) = .error f e' ∧
        e'.machine = (e.after k).machine ∧ e'.random = (e.after k).random ∧
        ∃ cause, f = .fault ⟨cause, some (e.after k).machine.pc, some (e.after k).machine.word⟩ := by
  refine ⟨fun f e' hs => step_error_atomic h hs, fun f e' s' hx => ?_⟩
  obtain ⟨k, hk, hdone, hf⟩ := execute_error hx
  exact ⟨k, hk, hdone, hf, step_error_atomic (wellFormed_after h k) hf⟩

/-- `LD V0, 1`, then a store of four registers whose third byte would wrap to address zero. -/
def wrappingStore : Engine where
  machine := { Machine.fresh with
    memory := Memory.fresh.store Memory.programStart [0x60, 0x01, 0xF3, 0x55]
    i := 0xFFE }
  random := .ofBytes #[]
  trace := false
  notes := #[]

theorem wrappingStore_atomic :
    wrappingStore.machine.WellFormed ∧
    ∃ f e', execute Hook.off 9 wrappingStore () = .error f (e', ()) ∧
      ∃ k < 9, (∀ j < k, ∃ ins, step (wrappingStore.after j) =
          .ok (some ins) (wrappingStore.after (j + 1))) ∧
        step (wrappingStore.after k) = .error f e' ∧
        e'.machine = (wrappingStore.after k).machine ∧
        e'.random = (wrappingStore.after k).random ∧
        ∃ cause, f = .fault ⟨cause, some (wrappingStore.after k).machine.pc,
          some (wrappingStore.after k).machine.word⟩ := by
  have hw : wrappingStore.machine.WellFormed :=
    (Machine.wellFormed_fresh.setMemory _).setI (by decide)
  have hx : (match execute Hook.off 9 wrappingStore () with
      | .ok _ _ => false
      | .error _ _ => true) = true := by decide +kernel
  cases hr : execute Hook.off 9 wrappingStore () with
  | ok n es => simp [hr] at hx
  | error f es =>
    exact ⟨hw, f, es.1, rfl, (failed_cycle_atomic wrappingStore hw Hook.off 9 ()).2 f es.1 () hr⟩

end Engine
end Chip8
