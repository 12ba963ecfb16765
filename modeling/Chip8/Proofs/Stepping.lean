import Chip8.Proofs.Cycle

/-!
# Chip8.Proofs.Stepping

Cycles one after another, and what a bulk run makes of them.

* `Engine.after` : plain stepping, the engine after so many cycles, completed or not.
* `Engine.Cycles` : cycles in a row that a hook lets begin and that complete an instruction.
* `Engine.Bulk`  : the four ways in which a bulk run ends; `execute_bulk` says that there are no
  others.
* `Engine.trail` : the engines in which the cycles of a bulk run begin, in order.
-/

namespace Chip8
namespace Engine

variable {σ : Type} {e e' : Engine}

/-- The engine after one cycle, completed or not. -/
def next (e : Engine) : Engine :=
  match step e with
  | .ok _ e' => e'
  | .error _ e' => e'

def after (e : Engine) : Nat → Engine
  | 0 => e
  | k + 1 => (e.after k).next

def completes (e : Engine) : Bool :=
  match step e with
  | .ok _ _ => true
  | .error _ _ => false

/-- The machine and its random bytes: all that a cycle depends on. -/
def core (e : Engine) : Machine × RandomSource := (e.machine, e.random)

theorem next_of_ok {a : Option Instruction} (h : step e = .ok a e') : e.next = e' := by
  simp only [next, h]

theorem next_of_error {f : Failure} (h : step e = .error f e') : e.next = e' := by
  simp only [next, h]

theorem after_next (e : Engine) (k : Nat) : e.next.after k = e.after (k + 1) := by
  induction k with
  | zero => rfl
  | succ k ih => exact congrArg next ih

theorem after_add (e : Engine) (j k : Nat) : e.after (j + k) = (e.after j).after k := by
  induction k with
  | zero => rfl
  | succ k ih => exact congrArg next ih

theorem map_after_cons (e : Engine) (k : Nat) :
    (List.range (k + 1)).map e.after = e :: (List.range k).map e.next.after := by
  rw [List.range_succ_eq_map, List.map_cons, List.map_map]
  refine congrArg (e :: ·) (List.map_congr_left fun j _ => ?_)
  exact (after_next e j).symm

theorem map_after_concat (e : Engine) (k : Nat) :
    (List.range (k + 1)).map e.after = (List.range k).map e.after ++ [e.after k] := by
  rw [List.range_succ, List.map_append]
  rfl

theorem map_after_append (e : Engine) (p k : Nat) :
    (List.range p).map e.after ++ (List.range k).map (e.after p).after =
      (List.range (p + k)).map e.after := by
  rw [List.range_add, List.map_append, List.map_map]
  refine congrArg (_ ++ ·) (List.map_congr_left fun j _ => ?_)
  exact (after_add e p j).symm

theorem completes_of_ok {a : Option Instruction} (h : step e = .ok a e') :
    e.completes = true := by
  simp only [completes, h]

theorem completes_of_error {f : Failure} (h : step e = .error f e') : e.completes = false := by
  simp only [completes, h]

theorem step_of_completes (h : e.completes = true) : ∃ a, step e = .ok a e.next := by
  cases hs : step e with
  | ok a e' => exact ⟨a, by rw [next_of_ok hs]⟩
  | error f e' =>
    rw [completes_of_error hs] at h
    cases h

/-! ## One cycle within the bounds -/

theorem step_ok (h : e.machine.WellFormed) {a : Option Instruction} (hs : step e = .ok a e') :
    ∃ m r, e.machine.cycle e.random = .ok (a, m, r) ∧
      e' = { e with machine := m, random := r }.noted (e.machine.remarks e.trace) := by
  rw [step_eq h.steady] at hs
  split at hs
  · cases hs
  · rename_i hc
    cases hs
    exact ⟨_, _, hc, rfl⟩

theorem step_error (h : e.machine.WellFormed) {f : Failure} (hs : step e = .error f e') :
    ∃ cause, e.machine.cycle e.random = .error cause ∧ f = e.faultHere cause ∧
      e' = e.noted (e.machine.remarks e.trace) := by
  rw [step_eq h.steady] at hs
  split at hs
  · rename_i hc
    cases hs
    exact ⟨_, hc, rfl, rfl⟩
  · cases hs

theorem wellFormed_of_step (h : e.machine.WellFormed) {a : Option Instruction}
    (hs : step e = .ok a e') : e'.machine.WellFormed := by
  obtain ⟨m, r, hc, rfl⟩ := step_ok h hs
  exact h.cycle hc

theorem isAwaiting_of_poll {x : Int} {a : Option Instruction} (hx : e.machine.awaiting = some x)
    (hs : poll x e = .ok a e') : e'.machine.isAwaiting = a.isNone := by
  simp only [poll, bind, EStateM.bind, get_eq] at hs
  cases hk : e.machine.keypad.first? with
  | none =>
    simp only [hk] at hs
    cases hs
    simp only [Machine.isAwaiting, hx, Option.isSome_some, Option.isNone_none]
  | some key =>
    simp only [hk, EStateM.bind, decodeHere_eq] at hs
    cases hd : Instruction.ofWord? e.machine.word with
    | none =>
      simp only [hd] at hs
      cases hs
    | some ins =>
      simp only [hd] at hs
      cases hv : e.machine.assignV x (key.val : Int) with
      | error d =>
        rw [hv] at hs
        cases hs
      | ok m =>
        rw [hv] at hs
        cases hs
        rfl

theorem isAwaiting_of_perform {ins : Instruction} {a : Option Instruction}
    (hs : (do
      perform ins
      return if (← get).machine.isAwaiting then none else some ins : Cycle (Option Instruction)) e =
        .ok a e') : e'.machine.isAwaiting = a.isNone := by
  simp only [bind, EStateM.bind] at hs
  cases hp : perform ins e with
  | error f e₁ =>
    rw [hp] at hs
    cases hs
  | ok u e₁ =>
    simp only [hp, get_eq, pure_eq, EStateM.Result.ok.injEq] at hs
    obtain ⟨rfl, rfl⟩ := hs
    cases e₁.machine.isAwaiting <;> rfl

/-- A cycle answers with no instruction exactly if it ends awaiting a key, also out of the bounds. -/
theorem isAwaiting_of_step {a : Option Instruction} (hs : step e = .ok a e') :
    e'.machine.isAwaiting = a.isNone := by
  simp only [step, bind, EStateM.bind, get_eq] at hs
  cases hx : e.machine.awaiting with
  | some x =>
    simp only [hx] at hs
    exact isAwaiting_of_poll hx hs
  | none =>
    simp only [hx, EStateM.bind, decodeHere_eq, get_eq] at hs
    cases hd : Instruction.ofWord? e.machine.word with
    | none =>
      simp only [hd] at hs
      cases hs
    | some ins =>
      simp only [hd] at hs
      by_cases ht : (e.trace && ins.form.executable) = true
      · rw [if_pos ht] at hs
        simp only [EStateM.bind, note_eq] at hs
        exact isAwaiting_of_perform hs
      · rw [if_neg ht] at hs
        exact isAwaiting_of_perform hs

theorem pc_of_step_none (h : e.machine.WellFormed) (hs : step e = .ok none e') :
    e'.machine.pc = e.machine.pc := by
  obtain ⟨m, r, hc, rfl⟩ := step_ok h hs
  have hm := congrArg Machine.pc (Machine.eq_of_cycle_none hc)
  exact hm

theorem core_of_step_error (h : e.machine.WellFormed) {f : Failure} (hs : step e = .error f e') :
    e'.core = e.core := by
  obtain ⟨cause, -, -, rfl⟩ := step_error h hs
  rfl

theorem wellFormed_next (h : e.machine.WellFormed) : e.next.machine.WellFormed := by
  simp only [next]
  cases hs : step e with
  | ok a e' => exact wellFormed_of_step h hs
  | error f e' =>
    obtain ⟨cause, -, -, rfl⟩ := step_error h hs
    exact h

theorem wellFormed_after (h : e.machine.WellFormed) (k : Nat) : (e.after k).machine.WellFormed := by
  induction k with
  | zero => exact h
  | succ k ih => exact wellFormed_next ih

/-! ## Bulk runs -/

inductive Cycles (hook : Hook σ) : Nat → Engine → σ → Engine → σ → Prop where
  | refl {e : Engine} {s : σ} : Cycles hook 0 e s e s
  | cons {k : Nat} {e e₁ e₂ : Engine} {s s₁ s₂ : σ} {ins : Instruction} :
      hook.ask e.machine s = (true, s₁) → step e = .ok (some ins) e₁ →
      Cycles hook k e₁ s₁ e₂ s₂ → Cycles hook (k + 1) e s e₂ s₂

/-- How a bulk run of `budget` cycles from `e` ends; `done` cycles were counted before it. -/
inductive Bulk (hook : Hook σ) (budget done : Nat) (e : Engine) (s : σ) :
    EStateM.Result Failure (Engine × σ) Nat → Prop where
  /-- The budget is spent. -/
  | spent {e₁ : Engine} {s₁ : σ} : Cycles hook budget e s e₁ s₁ →
      Bulk hook budget done e s (.ok (done + budget) (e₁, s₁))
  /-- The hook stops the run before a cycle. -/
  | stopped {k : Nat} {e₁ : Engine} {s₁ s₂ : σ} : k < budget → Cycles hook k e s e₁ s₁ →
      hook.ask e₁.machine s₁ = (false, s₂) →
      Bulk hook budget done e s (.ok (done + k) (e₁, s₂))
  /-- A cycle ends awaiting a key. -/
  | waits {k : Nat} {e₁ e₂ : Engine} {s₁ s₂ : σ} : k < budget → Cycles hook k e s e₁ s₁ →
      hook.ask e₁.machine s₁ = (true, s₂) → step e₁ = .ok none e₂ →
      Bulk hook budget done e s (.ok (done + (k + 1)) (e₂, s₂))
  /-- A cycle fails. -/
  | fails {k : Nat} {e₁ e₂ : Engine} {s₁ s₂ : σ} {f : Failure} : k < budget →
      Cycles hook k e s e₁ s₁ → hook.ask e₁.machine s₁ = (true, s₂) → step e₁ = .error f e₂ →
      Bulk hook budget done e s (.error f (e₂, s₂))

theorem Bulk.cons {hook : Hook σ} {budget done : Nat} {e₁ : Engine} {s s₁ : σ} {ins : Instruction}
    {res : EStateM.Result Failure (Engine × σ) Nat} (ha : hook.ask e.machine s = (true, s₁))
    (hs : step e = .ok (some ins) e₁) (h : Bulk hook budget (done + 1) e₁ s₁ res) :
    Bulk hook (budget + 1) done e s res := by
  cases h with
  | spent hc =>
    rw [Nat.add_right_comm, Nat.add_assoc]
    exact .spent (.cons ha hs hc)
  | stopped hk hc hf =>
    rw [Nat.add_right_comm, Nat.add_assoc]
    exact .stopped (by omega) (.cons ha hs hc) hf
  | waits hk hc ht hw =>
    rw [Nat.add_right_comm, Nat.add_assoc]
    exact .waits (by omega) (.cons ha hs hc) ht hw
  | fails hk hc ht hf => exact .fails (by omega) (.cons ha hs hc) ht hf

theorem executeFrom_bulk (hook : Hook σ) (budget done : Nat) (e : Engine) (s : σ) :
    Bulk hook budget done e s (executeFrom hook budget done e s) := by
  induction budget generalizing done e s with
  | zero => exact .spent .refl
  | succ budget ih =>
    simp only [executeFrom]
    split
    · rename_i s₁ ha
      exact .stopped (Nat.succ_pos _) .refl ha
    · rename_i s₁ ha
      split
      · rename_i ins e₁ hs
        exact (ih (done + 1) e₁ s₁).cons ha hs
      · rename_i e₁ hs
        exact .waits (Nat.succ_pos _) .refl ha hs
      · rename_i f e₁ hs
        exact .fails (Nat.succ_pos _) .refl ha hs

theorem execute_bulk (hook : Hook σ) (budget : Nat) (e : Engine) (s : σ) :
    Bulk hook budget 0 e s (execute hook budget e s) :=
  executeFrom_bulk hook budget 0 e s

namespace Cycles

variable {hook : Hook σ} {k : Nat} {s s' : σ}

theorem eq_after (h : Cycles hook k e s e' s') : e' = e.after k := by
  induction h with
  | refl => rfl
  | cons _ hs _ ih => rw [ih, ← after_next, next_of_ok hs]

theorem step_after (h : Cycles hook k e s e' s') :
    ∀ j < k, ∃ ins, step (e.after j) = .ok (some ins) (e.after (j + 1)) := by
  induction h with
  | refl => intro j hj; omega
  | @cons k e e₁ e₂ s s₁ s₂ ins _ hs _ ih =>
    intro j hj
    cases j with
    | zero => exact ⟨ins, by rw [← after_next, next_of_ok hs]; exact hs⟩
    | succ j =>
      have := ih j (by omega)
      rwa [← next_of_ok hs, after_next, after_next] at this

end Cycles

def trail (hook : Hook σ) : (budget : Nat) → Engine → σ → List Engine
  | 0, _, _ => []
  | budget + 1, e, s =>
    match hook.ask e.machine s with
    | (false, _) => []
    | (true, s) =>
      e :: match step e with
        | .ok (some _) e' => trail hook budget e' s
        | .ok none _ => []
        | .error _ _ => []

theorem Cycles.trail_eq {hook : Hook σ} {k : Nat} {s s' : σ} (h : Cycles hook k e s e' s')
    (left : Nat) :
    trail hook (k + left) e s = (List.range k).map e.after ++ trail hook left e' s' := by
  induction h with
  | refl => rw [Nat.zero_add]; rfl
  | cons ha hs _ ih =>
    rw [Nat.add_right_comm, map_after_cons, next_of_ok hs]
    simp only [trail, ha, hs, ih, List.cons_append]

theorem trail_of_stop {hook : Hook σ} {s s' : σ} (h : hook.ask e.machine s = (false, s'))
    (left : Nat) : trail hook left e s = [] := by
  cases left with
  | zero => rfl
  | succ left => simp only [trail, h]

theorem trail_of_wait {hook : Hook σ} {s s' : σ} (h : hook.ask e.machine s = (true, s'))
    (hs : step e = .ok none e') (left : Nat) : trail hook (left + 1) e s = [e] := by
  simp only [trail, h, hs]

theorem trail_of_error {hook : Hook σ} {s s' : σ} (h : hook.ask e.machine s = (true, s'))
    {f : Failure} (hs : step e = .error f e') (left : Nat) :
    trail hook (left + 1) e s = [e] := by
  simp only [trail, h, hs]

theorem executeFrom_ok {hook : Hook σ} {budget done n : Nat} {s : σ} {p : Engine × σ}
    (h : executeFrom hook budget done e s = .ok n p) :
    n = done + (trail hook budget e s).length ∧ (trail hook budget e s).all completes = true := by
  induction budget generalizing done e s with
  | zero =>
    cases h
    exact ⟨rfl, rfl⟩
  | succ budget ih =>
    simp only [executeFrom] at h
    split at h
    · rename_i ha
      cases h
      rw [trail_of_stop ha]
      exact ⟨rfl, rfl⟩
    · rename_i ha
      split at h
      · rename_i ins e' hs
        obtain ⟨hn, hall⟩ := ih h
        simp only [trail, ha, hs, List.length_cons, List.all_cons, completes_of_ok hs, hall]
        exact ⟨by omega, rfl⟩
      · rename_i e' hs
        cases h
        rw [trail_of_wait ha hs]
        exact ⟨rfl, by simp only [List.all_cons, completes_of_ok hs, List.all_nil, Bool.and_self]⟩
      · cases h

theorem executeFrom_error {hook : Hook σ} {budget done : Nat} {s : σ} {f : Failure}
    {p : Engine × σ} (h : executeFrom hook budget done e s = .error f p) :
    (trail hook budget e s).all completes = false := by
  induction budget generalizing done e s with
  | zero => cases h
  | succ budget ih =>
    simp only [executeFrom] at h
    split at h
    · cases h
    · rename_i ha
      split at h
      · rename_i ins e' hs
        simp only [trail, ha, hs, List.all_cons, ih h, Bool.and_false]
      · cases h
      · rename_i f' e' hs
        rw [trail_of_error ha hs]
        simp only [List.all_cons, completes_of_error hs, Bool.false_and]

end Engine
end Chip8
