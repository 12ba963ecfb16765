import Chip8.Proofs.Effect

/-!
# Chip8.Proofs.Composition

Bulk runs one after another. A run that spends its budget and leaves no key awaited can be gone on with as if
it had not ended: neither a cycle nor a question to the hook is lost or repeated where it stopped.

* `Hook.recording`  : a hook that keeps a list of its questions.
* `Engine.asked`    : the questions of a bulk run.
* `Engine.Accounts` : cycles, answer and questions of a bulk run, against plain stepping.

`execute_composes` is about every machine, within its bounds or not, and every hook.
-/

namespace Chip8

/-- What a hook was asked, and its answer. -/
structure Question where
  machine : Machine
  pc : Nat
  opcode : Nat
  answer : Bool
  deriving DecidableEq

def Hook.recording {σ : Type} (hook : Hook σ) : Hook (σ × List Question) :=
  fun m pc opcode (s, questions) =>
    let (go, s) := hook m pc opcode s
    (go, s, questions ++ [⟨m, pc, opcode, go⟩])

namespace Engine

variable {σ : Type} {hook : Hook σ} {m n k budget done : Nat} {e e' e₁ : Engine} {s s' s₁ : σ} {go : Bool}
  {l : List Question}

/-- The question before a cycle that begins in `e`: none while a key is awaited. -/
def asks (e : Engine) (answer : Bool) : List Question :=
  if e.machine.isAwaiting then [] else [⟨e.machine, e.machine.pc, e.machine.word, answer⟩]

def questions (e : Engine) (k : Nat) : List Question :=
  ((List.range k).map e.after).flatMap fun f => f.asks true

/-- A result with a list of questions beside the state of the hook. -/
def recorded (l : List Question) :
    EStateM.Result Failure (Engine × σ) Nat → EStateM.Result Failure (Engine × σ × List Question) Nat
  | .ok n (e, s) => .ok n (e, s, l)
  | .error f (e, s) => .error f (e, s, l)

def asked (hook : Hook σ) (budget : Nat) (e : Engine) (s : σ) : List Question :=
  match execute hook.recording budget e (s, []) with
  | .ok _ (_, _, l) => l
  | .error _ (_, _, l) => l

/-- A result that counts `m` cycles before it. -/
def countedFrom (m : Nat) :
    EStateM.Result Failure (Engine × σ) Nat → EStateM.Result Failure (Engine × σ) Nat
  | .ok n p => .ok (m + n) p
  | .error f p => .error f p

/-! ## Recording changes nothing -/

theorem ask_recording (h : hook.ask e.machine s = (go, s')) (l : List Question) :
    hook.recording.ask e.machine (s, l) = (go, s', l ++ e.asks go) := by
  unfold Hook.ask at h ⊢
  cases hw : e.machine.isAwaiting with
  | true =>
    rw [hw] at h
    cases h
    simp only [asks, hw, if_true, List.append_nil]
  | false =>
    rw [hw] at h
    have h : hook e.machine e.machine.pc e.machine.word s = (go, s') := h
    simp only [Hook.recording, asks, hw, h, Bool.false_eq_true, if_false]

theorem executeFrom_recording (hook : Hook σ) (budget : Nat) (e : Engine) (s : σ) :
    ∃ calls, ∀ done l, executeFrom hook.recording budget done e (s, l) =
      recorded (l ++ calls) (executeFrom hook budget done e s) := by
  induction budget generalizing e s with
  | zero => exact ⟨[], fun done l => by rw [List.append_nil]; rfl⟩
  | succ budget ih =>
    cases ha : hook.ask e.machine s with
    | mk go s₁ =>
      have hr := ask_recording ha
      cases go with
      | false =>
        refine ⟨e.asks false, fun done l => ?_⟩
        simp only [executeFrom, ha, hr, recorded]
      | true =>
        cases hs : step e with
        | error f e₁ =>
          refine ⟨e.asks true, fun done l => ?_⟩
          simp only [executeFrom, ha, hr, hs, recorded]
        | ok a e₁ =>
          cases a with
          | none =>
            refine ⟨e.asks true, fun done l => ?_⟩
            simp only [executeFrom, ha, hr, hs, recorded]
          | some ins =>
            obtain ⟨calls, hcalls⟩ := ih e₁ s₁
            refine ⟨e.asks true ++ calls, fun done l => ?_⟩
            simp only [executeFrom, ha, hr, hs, hcalls, List.append_assoc]

theorem asked_eq {calls : List Question}
    (h : execute hook.recording budget e (s, []) = recorded calls (execute hook budget e s)) :
    asked hook budget e s = calls := by
  rw [asked, h]
  cases execute hook budget e s <;> rfl

/-- The questions of a run are kept after those before it. -/
theorem executeFrom_asked (hook : Hook σ) (budget done : Nat) (e : Engine) (s : σ) (l : List Question) :
    executeFrom hook.recording budget done e (s, l) =
      recorded (l ++ asked hook budget e s) (executeFrom hook budget done e s) := by
  obtain ⟨calls, hcalls⟩ := executeFrom_recording hook budget e s
  rw [hcalls, asked_eq (hcalls 0 [])]
  rfl

/-! ## The questions of a run -/

theorem asked_cons {ins : Instruction} (ha : hook.ask e.machine s = (true, s₁))
    (hs : step e = .ok (some ins) e₁) :
    asked hook (budget + 1) e s = e.asks true ++ asked hook budget e₁ s₁ := by
  refine asked_eq ?_
  simp only [execute, executeFrom, ask_recording ha, ha, hs, executeFrom_asked]
  rfl

theorem asked_stop (ha : hook.ask e.machine s = (false, s₁)) :
    asked hook (budget + 1) e s = e.asks false := by
  refine asked_eq ?_
  simp only [execute, executeFrom, ask_recording ha, ha, recorded]
  rfl

theorem asked_wait (ha : hook.ask e.machine s = (true, s₁)) (hs : step e = .ok none e₁) :
    asked hook (budget + 1) e s = e.asks true := by
  refine asked_eq ?_
  simp only [execute, executeFrom, ask_recording ha, ha, hs, recorded]
  rfl

theorem asked_error {f : Failure} (ha : hook.ask e.machine s = (true, s₁)) (hs : step e = .error f e₁) :
    asked hook (budget + 1) e s = e.asks true := by
  refine asked_eq ?_
  simp only [execute, executeFrom, ask_recording ha, ha, hs, recorded]
  rfl

theorem questions_concat (e : Engine) (k : Nat) :
    e.questions (k + 1) = e.questions k ++ (e.after k).asks true := by
  rw [questions, map_after_concat, List.flatMap_append, List.flatMap_singleton]
  rfl

theorem questions_cons (e : Engine) (k : Nat) :
    e.questions (k + 1) = e.asks true ++ e.next.questions k := by
  rw [questions, map_after_cons, List.flatMap_cons]
  rfl

/-- The first cycles of a run, and the questions of the rest. -/
theorem Cycles.asked_eq (h : Cycles hook k e s e₁ s₁) (left : Nat) :
    asked hook (k + left) e s = e.questions k ++ asked hook left e₁ s₁ := by
  induction h with
  | refl => rw [Nat.zero_add]; rfl
  | cons ha hs _ ih =>
    rw [Nat.add_right_comm, asked_cons ha hs, ih, questions_cons, next_of_ok hs, List.append_assoc]

/-! ## Two runs in one -/

theorem Cycles.executeFrom_eq (h : Cycles hook k e s e₁ s₁) (left done : Nat) :
    executeFrom hook (k + left) done e s = executeFrom hook left (done + k) e₁ s₁ := by
  induction h generalizing done with
  | refl => rw [Nat.zero_add]; rfl
  | cons ha hs _ ih =>
    rw [Nat.add_right_comm, executeFrom]
    simp only [ha, hs, ih]
    rw [Nat.add_assoc, Nat.add_comm 1]

theorem executeFrom_eq_counted (hook : Hook σ) (budget done m : Nat) (e : Engine) (s : σ) :
    executeFrom hook budget (m + done) e s = countedFrom m (executeFrom hook budget done e s) := by
  induction budget generalizing done e s with
  | zero => rfl
  | succ budget ih =>
    simp only [executeFrom]
    split
    · rfl
    · split
      · rw [Nat.add_assoc, ih]
      · rfl
      · rfl

/-- A run that spends its budget and leaves no key awaited is a row of cycles. -/
theorem cycles_of_spent (h : execute hook m e s = .ok m (e₁, s₁)) (hw : e₁.machine.isAwaiting = false) :
    Cycles hook m e s e₁ s₁ := by
  have hb := execute_bulk hook m e s
  rw [h] at hb
  generalize hres : EStateM.Result.ok m (e₁, s₁) = res at hb
  cases hb with
  | spent hc =>
    simp only [EStateM.Result.ok.injEq, Prod.mk.injEq] at hres
    obtain ⟨-, rfl, rfl⟩ := hres
    exact hc
  | stopped hk =>
    simp only [EStateM.Result.ok.injEq] at hres
    omega
  | waits _ _ _ hs =>
    simp only [EStateM.Result.ok.injEq, Prod.mk.injEq] at hres
    obtain ⟨-, rfl, -⟩ := hres
    rw [isAwaiting_of_step hs] at hw
    cases hw
  | fails => cases hres

/-! ## Cycles, answer and questions -/

/-- How a bulk run of at most `n` cycles ends that asked `calls`. It begins the first cycles of plain stepping,
and asks before each of them that does not begin awaiting a key. -/
inductive Accounts (n : Nat) (e : Engine) (calls : List Question) :
    EStateM.Result Failure (Engine × σ) Nat → Prop where
  /-- `k` cycles completed, and the budget is spent or a key is awaited. -/
  | ran {k : Nat} {s : σ} : k ≤ n → (∀ j < k, (e.after j).completes = true) →
      k = n ∨ (e.after k).machine.isAwaiting = true → calls = e.questions k →
      Accounts n e calls (.ok k (e.after k, s))
  /-- `k` cycles completed, and the hook was asked about another one and stopped the run. -/
  | stopped {k : Nat} {s : σ} : k < n → (∀ j < k, (e.after j).completes = true) →
      (e.after k).machine.isAwaiting = false → calls = e.questions k ++ (e.after k).asks false →
      Accounts n e calls (.ok k (e.after k, s))
  /-- `k` cycles completed, and the next one failed. -/
  | failed {k : Nat} {s : σ} {f : Failure} : k < n → (∀ j < k, (e.after j).completes = true) →
      (e.after k).completes = false → calls = e.questions (k + 1) →
      Accounts n e calls (.error f (e.after (k + 1), s))

theorem Cycles.completes_after (h : Cycles hook k e s e₁ s₁) : ∀ j < k, (e.after j).completes = true := by
  intro j hj
  obtain ⟨ins, hs⟩ := h.step_after j hj
  exact completes_of_ok hs

theorem isAwaiting_of_stop (h : hook.ask e.machine s = (false, s₁)) : e.machine.isAwaiting = false := by
  unfold Hook.ask at h
  cases hw : e.machine.isAwaiting with
  | true =>
    rw [hw] at h
    cases h
  | false => rfl

theorem Cycles.asked_of_lt (h : Cycles hook k e s e₁ s₁) (hk : k < n) :
    asked hook n e s = e.questions k ++ asked hook (n - k - 1 + 1) e₁ s₁ := by
  rw [← h.asked_eq]
  congr 1
  omega

theorem accounts (hook : Hook σ) (n : Nat) (e : Engine) (s : σ) :
    Accounts n e (asked hook n e s) (execute hook n e s) := by
  have hb := execute_bulk hook n e s
  generalize execute hook n e s = res at hb ⊢
  cases hb with
  | spent hc =>
    have hq := hc.asked_eq 0
    obtain rfl := hc.eq_after
    rw [Nat.zero_add]
    exact .ran (Nat.le_refl n) hc.completes_after (.inl rfl) (hq.trans (List.append_nil _))
  | stopped hk hc ha =>
    have hq := hc.asked_of_lt hk
    obtain rfl := hc.eq_after
    rw [Nat.zero_add]
    exact .stopped hk hc.completes_after (isAwaiting_of_stop ha) (by rw [hq, asked_stop ha])
  | @waits k e₁ e₂ s₁ s₂ hk hc ha hs =>
    have hq := hc.asked_of_lt hk
    obtain rfl := hc.eq_after
    obtain rfl : e.after (k + 1) = e₂ := next_of_ok hs
    rw [Nat.zero_add]
    refine .ran hk ?_ (.inr (isAwaiting_of_step hs)) (by rw [hq, asked_wait ha hs, questions_concat])
    intro j hj
    obtain hlt | rfl := Nat.lt_succ_iff_lt_or_eq.mp hj
    · exact hc.completes_after j hlt
    · exact completes_of_ok hs
  | @fails k e₁ e₂ s₁ s₂ f hk hc ha hs =>
    have hq := hc.asked_of_lt hk
    obtain rfl := hc.eq_after
    obtain rfl : e.after (k + 1) = e₂ := next_of_error hs
    exact .failed hk hc.completes_after (completes_of_error hs)
      (by rw [hq, asked_error ha hs, questions_concat])

/-- **Bulk runs compose.** A run that spends its budget with no key awaited afterwards and another one do and
ask what one run with both budgets does and asks, and the answers add up. Every run answers with the
cycles that it completes, and asks about each cycle once, before it. -/
theorem execute_composes (hook : Hook σ) (e : Engine) (s : σ) :
    (∀ m n e₁ s₁, execute hook m e s = .ok m (e₁, s₁) → e₁.machine.isAwaiting = false →
      execute hook (m + n) e s = countedFrom m (execute hook n e₁ s₁) ∧
        asked hook (m + n) e s = asked hook m e s ++ asked hook n e₁ s₁) ∧
    ∀ n, execute hook.recording n e (s, []) = recorded (asked hook n e s) (execute hook n e s) ∧
      Accounts n e (asked hook n e s) (execute hook n e s) := by
  refine ⟨?_, fun n => ⟨executeFrom_asked hook n 0 e s [], accounts hook n e s⟩⟩
  intro m n e₁ s₁ h hw
  have hc := cycles_of_spent h hw
  have hfirst : asked hook m e s = e.questions m := (hc.asked_eq 0).trans (List.append_nil _)
  constructor
  · rw [execute, hc.executeFrom_eq, Nat.add_comm 0, executeFrom_eq_counted]
    rfl
  · rw [hc.asked_eq, hfirst]

/-- Lets so many instructions begin. -/
def rationed : Hook Nat :=
  fun _ _ _ left => (0 < left, left - 1)

/-- A load, a jump to the address behind it, and a word that is no instruction. -/
def loadThenFault : Engine where
  machine := { Machine.fresh with
    memory := Memory.fresh.store Memory.programStart [0x60, 0x01, 0x12, 0x04, 0xFF, 0xFF] }
  random := .ofBytes #[]
  trace := false
  notes := #[]

/-- The load, then the jump and the failing word, with three instructions allowed. -/
theorem loadThenFault_composes :
    ∃ e₁, execute rationed 1 loadThenFault 3 = .ok 1 (e₁, 2) ∧ e₁.machine.isAwaiting = false ∧
      execute rationed (1 + 5) loadThenFault 3 = countedFrom 1 (execute rationed 5 e₁ 2) ∧
      asked rationed (1 + 5) loadThenFault 3 =
        asked rationed 1 loadThenFault 3 ++ asked rationed 5 e₁ 2 := by
  have hd : Instruction.ofWord? loadThenFault.machine.word = some ⟨.ldByte, 0x6001⟩ := by decide +kernel
  obtain ⟨hs, -, -⟩ := step_of_obeyed rfl hd rfl
  have hload : execute rationed 1 loadThenFault 3 = .ok 1 (loadThenFault.next, 2) := by
    have hask : rationed.ask loadThenFault.machine 3 = (true, 2) := rfl
    simp only [execute, executeFrom, hask, hs]
  have hw : loadThenFault.next.machine.isAwaiting = false := isAwaiting_of_step hs
  obtain ⟨hexecute, hasked⟩ := (execute_composes rationed loadThenFault 3).1 1 5 _ _ hload hw
  exact ⟨_, hload, hw, hexecute, hasked⟩

end Engine

end Chip8
