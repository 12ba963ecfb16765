import Chip8.Proofs.Effect

/-!
# Chip8.Proofs.Drive

A machine driven from outside: cycles, timer ticks and key events in any order, with nobody writing to
its memory. An input completes a cycle or changes nothing but timers and keys (`accept_cases`), and
whatever every input keeps is kept by any inputs (`drive_invariant`).

Machines that are driven from power on are within the bounds, and a key wait is pending only at the
instruction that began it (`Machine.AwaitsHere`), because no cycle writes to memory while it is.
-/

namespace Chip8

def Machine.AwaitsHere (m : Machine) : Prop :=
  ∀ x, m.awaiting = some x →
    ∃ ins, Instruction.ofWord? m.word = some ins ∧ ins.form = .ldVxK ∧ x = ins.x.val

namespace Engine

variable {e e' : Engine}

/-- What comes to a machine from outside. -/
inductive Input where
  | cycle
  | tick
  | holdKey (key : Key) (held : Bool)
  | releaseAll
  deriving DecidableEq

/-- The engine after an input. A cycle that fails is left as it failed, and a key that is none changes
nothing. -/
def accept (e : Engine) : Input → Engine
  | .cycle => e.next
  | .tick => { e with machine := e.machine.tick }
  | .holdKey key held =>
    match e.machine.holdKey key held with
    | .ok m => { e with machine := m }
    | .error _ => e
  | .releaseAll => { e with machine := e.machine.releaseAll }

def drive (e : Engine) (inputs : List Input) : Engine :=
  inputs.foldl accept e

theorem drive_cons (e : Engine) (i : Input) (inputs : List Input) :
    e.drive (i :: inputs) = (e.accept i).drive inputs := rfl

theorem drive_append (e : Engine) (before body : List Input) :
    e.drive (before ++ body) = (e.drive before).drive body :=
  List.foldl_append ..

theorem drive_replicate (e : Engine) (n : Nat) :
    e.drive (List.replicate n .cycle) = e.after n := by
  induction n generalizing e with
  | zero => rfl
  | succ n ih => rw [List.replicate_succ, drive_cons, ← after_next, ← ih]; rfl

/-- What every input keeps is kept by any inputs. -/
theorem drive_invariant {P : Engine → Prop} (hstep : ∀ e i, P e → P (e.accept i)) (h : P e)
    (inputs : List Input) : P (e.drive inputs) := by
  induction inputs generalizing e with
  | nil => exact h
  | cons i inputs ih => exact ih (hstep e i h)

/-- Between two cycles only timers and keys change. -/
theorem accept_of_ne_cycle {i : Input} (hi : i ≠ .cycle) :
    ∃ delay sound keypad,
      e.accept i = { e with machine := { e.machine with delay, sound, keypad } } := by
  cases i with
  | cycle => exact absurd rfl hi
  | tick => exact ⟨_, _, _, rfl⟩
  | holdKey key held =>
    simp only [accept, Machine.holdKey]
    cases key.resolve with
    | ok k => exact ⟨_, _, _, rfl⟩
    | error error => exact ⟨_, _, _, rfl⟩
  | releaseAll => exact ⟨_, _, _, rfl⟩

/-- An input completes a cycle or changes nothing but timers and keys; a cycle that fails changes
nothing. -/
theorem accept_cases (h : e.machine.WellFormed) (i : Input) :
    (∃ a, e.machine.Turns e.random a (e.accept i).machine (e.accept i).random) ∨
      ∃ delay sound keypad,
        (e.accept i).machine = { e.machine with delay, sound, keypad } := by
  by_cases hi : i = .cycle
  · subst hi
    simp only [accept, next]
    cases hs : step e with
    | ok a e' => exact .inl ⟨a, turns_of_step h hs⟩
    | error f e' =>
      obtain ⟨cause, -, -, rfl⟩ := step_error h hs
      exact .inr ⟨_, _, _, rfl⟩
  · obtain ⟨delay, sound, keypad, he⟩ := accept_of_ne_cycle (e := e) hi
    exact .inr ⟨delay, sound, keypad, by rw [he]⟩

theorem wellFormed_accept (h : e.machine.WellFormed) (i : Input) :
    (e.accept i).machine.WellFormed := by
  cases i with
  | cycle => exact wellFormed_next h
  | tick => exact h.tick
  | holdKey key held =>
    simp only [accept, Machine.holdKey]
    cases key.resolve with
    | ok k => exact h.hold k held
    | error error => exact h
  | releaseAll => exact h.setKeypad _

theorem wellFormed_drive (h : e.machine.WellFormed) (inputs : List Input) :
    (e.drive inputs).machine.WellFormed :=
  drive_invariant (P := fun e => e.machine.WellFormed) (fun _ i he => wellFormed_accept he i) h inputs

/-! ## Key waits -/

theorem awaitsHere_of_turns {m m' : Machine} {r r' : RandomSource} {a : Option Instruction}
    (h : m.AwaitsHere) (ht : m.Turns r a m' r') : m'.AwaitsHere := by
  cases ht with
  | waitsOn => exact h
  | takes => exact fun x hx => by cases hx
  | carries ha hd hco =>
    have hnone (hk : m'.awaiting = m.awaiting) : m'.AwaitsHere := fun x hx => by
      rw [hk, ha] at hx
      cases hx
    cases Machine.does_of_carryOut hco with
    | returns => exact hnone rfl
    | calls => exact hnone rfl
    | stores => exact hnone rfl
    | waits hf => exact fun x hx => by cases hx; exact ⟨_, hd, hf, rfl⟩
    | keeps _ _ _ hk => exact hnone (congrArg (·.2.2.2.2) hk)

theorem awaitsHere_accept (h : e.machine.WellFormed) (ha : e.machine.AwaitsHere) (i : Input) :
    (e.accept i).machine.AwaitsHere := by
  obtain ⟨a, ht⟩ | ⟨delay, sound, keypad, he⟩ := accept_cases h i
  · exact awaitsHere_of_turns ha ht
  · rw [he]
    exact ha

theorem awaitsHere_drive (h : e.machine.WellFormed) (ha : e.machine.AwaitsHere)
    (inputs : List Input) : (e.drive inputs).machine.AwaitsHere :=
  (drive_invariant (P := fun e => e.machine.WellFormed ∧ e.machine.AwaitsHere)
    (fun _ i he => ⟨wellFormed_accept he.1 i, awaitsHere_accept he.1 he.2 i⟩) ⟨h, ha⟩ inputs).2

end Engine
end Chip8
