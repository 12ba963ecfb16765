import Chip8.Proofs.Stepping

/-!
# Chip8.Proofs.Effect

What one cycle can do to memory, stack and key wait, and why it can be refused, said once.

* `Machine.Does`    : what a completed instruction does. Only returns, calls, stores and key waits touch
  memory, stack or key wait; the others keep them (`Machine.kept`).
* `Machine.Refuses` : why an instruction is refused.
* `Machine.Unseen`  : a change that an instruction does not see, and hands on.
* `Machine.Turns`   : how a cycle completes: by waiting on, by taking a key, or by an instruction.
* `Engine.Raises`   : a cycle fails for a cause, at its place and with its word.
-/

namespace Chip8
namespace Machine

variable {m m' : Machine} {r r' : RandomSource} {ins : Instruction} {cause : Cause}

def kept (m : Machine) : Memory × Vector Int 16 × Int × Keypad × Option Int :=
  (m.memory, m.stack, m.sp, m.keypad, m.awaiting)

@[simp] theorem jump_kept (m : Machine) (a : Int) : (m.jump a).kept = m.kept := rfl

@[simp] theorem advance_kept (m : Machine) : m.advance.kept = m.kept := rfl

@[simp] theorem skipIf_kept (m : Machine) (c : Bool) : (m.skipIf c).kept = m.kept := rfl

@[simp] theorem setV_kept (m : Machine) (x : Fin 16) (b : UInt8) : (m.setV x b).kept = m.kept := rfl

@[simp] theorem setFlagged_kept (m : Machine) (x : Fin 16) (b : UInt8) (flag : Bool) :
    (m.setFlagged x b flag).kept = m.kept := rfl

@[simp] theorem drawSprite_kept (m : Machine) (x y : Fin 16) (n : Nat) :
    (m.drawSprite x y n).kept = m.kept := by
  rw [drawSprite_eq]
  rfl

@[simp] theorem loadRegisters_kept (m : Machine) (x : Fin 16) :
    (m.loadRegisters x).kept = m.kept := by
  simp only [kept, loadRegisters]

@[simp] theorem receive_kept (m : Machine) (x key : Fin 16) : (m.receive x key).kept = m.kept := rfl

@[simp] theorem obey_kept (m : Machine) (ins : Instruction) : (m.obey ins).kept = m.kept := by
  simp only [obey]
  split <;> simp <;> rfl

/-- The bytes that an instruction stores at I, if it is a store. -/
def stored? (m : Machine) (ins : Instruction) : Option (List UInt8) :=
  match ins.form with
  | .ldBVx => some (decimalDigits m.v[ins.x])
  | .ldMemVx => some (m.v.toList.take (ins.x + 1))
  | _ => none

inductive Does (m : Machine) (r : RandomSource) (ins : Instruction) :
    Machine → RandomSource → Prop where
  | returns : ins.form = .ret → m.sp ≠ 0 → Does m r ins m.leave r
  | calls : ins.form = .call → m.sp ≠ 16 → Does m r ins (m.enter ins.nnn) r
  | stores {bytes : List UInt8} : m.stored? ins = some bytes →
      m.firstProtected? bytes.length = none → Does m r ins (m.poke m.i bytes).advance r
  | waits : ins.form = .ldVxK → m.keypad.first? = none →
      Does m r ins { m with awaiting := some (ins.x.val : Int) } r
  | keeps {m' : Machine} {r' : RandomSource} : ins.form ≠ .ret → ins.form ≠ .call →
      m.stored? ins = none → m'.kept = m.kept → Does m r ins m' r'

inductive Refuses (m : Machine) (ins : Instruction) : Cause → Prop where
  | machineCode : ins.form = .sys → Refuses m ins .machineCode
  | underflow : ins.form = .ret → m.sp = 0 → Refuses m ins .stackUnderflow
  | overflow : ins.form = .call → m.sp = 16 → Refuses m ins .stackOverflow
  | protectedWrite {bytes : List UInt8} {target : Nat} : m.stored? ins = some bytes →
      m.firstProtected? bytes.length = some target → Refuses m ins (.protectedWrite target)

theorem does_of_guardedStore {bytes : List UInt8} (hb : m.stored? ins = some bytes)
    (hc : (m.guardedStore bytes).map (·, r) = .ok (m', r')) : m.Does r ins m' r' := by
  simp only [guardedStore] at hc
  cases hp : m.firstProtected? bytes.length with
  | some target =>
    simp only [hp] at hc
    cases hc
  | none =>
    simp only [hp] at hc
    cases hc
    exact .stores hb hp

theorem refuses_of_guardedStore {bytes : List UInt8} (hb : m.stored? ins = some bytes)
    (hc : (m.guardedStore bytes).map (·, r) = .error cause) : m.Refuses ins cause := by
  simp only [guardedStore] at hc
  cases hp : m.firstProtected? bytes.length with
  | some target =>
    simp only [hp] at hc
    cases hc
    exact .protectedWrite hb hp
  | none =>
    simp only [hp] at hc
    cases hc

theorem does_of_carryOut (hc : m.carryOut r ins = .ok (m', r')) : m.Does r ins m' r' := by
  cases hf : ins.form
  case sys =>
    simp only [carryOut, hf] at hc
    cases hc
  case ret =>
    simp only [carryOut, hf] at hc
    split at hc
    · cases hc
    · cases hc
      exact .returns hf ‹_›
  case call =>
    simp only [carryOut, hf] at hc
    split at hc
    · cases hc
    · cases hc
      exact .calls hf ‹_›
  case ldVxK =>
    simp only [carryOut, hf] at hc
    split at hc
    · cases hc
      exact .keeps (by simp [hf]) (by simp [hf]) (by simp only [stored?, hf]) rfl
    · cases hc
      exact .waits hf ‹_›
  case ldBVx =>
    simp only [carryOut, hf] at hc
    exact does_of_guardedStore (by simp only [stored?, hf]) hc
  case ldMemVx =>
    simp only [carryOut, hf] at hc
    exact does_of_guardedStore (by simp only [stored?, hf]) hc
  case rnd | ldVxDt =>
    simp only [carryOut, hf] at hc
    cases hc
    exact .keeps (by simp [hf]) (by simp [hf]) (by simp only [stored?, hf]) rfl
  all_goals
    simp only [carryOut, hf] at hc
    cases hc
    exact .keeps (by simp [hf]) (by simp [hf]) (by simp only [stored?, hf]) (obey_kept m ins)

theorem carryOut_error_iff : m.carryOut r ins = .error cause ↔ m.Refuses ins cause := by
  constructor
  · intro hc
    cases hf : ins.form
    case sys =>
      simp only [carryOut, hf] at hc
      cases hc
      exact .machineCode hf
    case ret =>
      simp only [carryOut, hf] at hc
      split at hc
      · cases hc
        exact .underflow hf ‹_›
      · cases hc
    case call =>
      simp only [carryOut, hf] at hc
      split at hc
      · cases hc
        exact .overflow hf ‹_›
      · cases hc
    case ldVxK =>
      simp only [carryOut, hf] at hc
      split at hc <;> cases hc
    case ldBVx =>
      simp only [carryOut, hf] at hc
      exact refuses_of_guardedStore (by simp only [stored?, hf]) hc
    case ldMemVx =>
      simp only [carryOut, hf] at hc
      exact refuses_of_guardedStore (by simp only [stored?, hf]) hc
    all_goals
      simp only [carryOut, hf] at hc
      cases hc
  · intro hr
    cases hr with
    | machineCode hf => simp only [carryOut, hf]
    | underflow hf hsp => simp only [carryOut, hf, hsp, if_true]
    | overflow hf hsp => simp only [carryOut, hf, hsp, if_true]
    | @protectedWrite bytes target hb hp =>
      simp only [stored?] at hb
      split at hb
      · cases hb
        simp only [carryOut, guardedStore, *, Except.map]
      · cases hb
        simp only [carryOut, guardedStore, *, Except.map]
      · cases hb

structure Unseen (m : Machine) (ins : Instruction) (c : Machine → Machine) : Prop where
  v : (c m).v = m.v
  sp : (c m).sp = m.sp
  keypad : (c m).keypad = m.keypad
  delay : ins.form = .ldVxDt → (c m).delay = m.delay
  firstProtected? : ∀ n, (c m).firstProtected? n = m.firstProtected? n
  leave : ins.form = .ret → m.sp ≠ 0 → (c m).leave = c m.leave
  enter : ins.form = .call → ∀ a, (c m).enter a = c (m.enter a)
  setV : ∀ x b, ((c m).setV x b).advance = c (m.setV x b).advance
  wait : ∀ x, { c m with awaiting := some x } = c { m with awaiting := some x }
  store : ∀ bytes, ((c m).poke (c m).i bytes).advance = c (m.poke m.i bytes).advance
  obey : (c m).obey ins = c (m.obey ins)

/-- A change that an instruction does not see is there afterwards, and the instruction is refused alike
with and without it. -/
theorem carryOut_of_unseen {c : Machine → Machine} (h : m.Unseen ins c) :
    (c m).carryOut r ins = (m.carryOut r ins).map fun p => (c p.1, p.2) := by
  have hstore (bytes : List UInt8) : ((c m).guardedStore bytes).map (·, r) =
      ((m.guardedStore bytes).map (·, r)).map fun p => (c p.1, p.2) := by
    simp only [guardedStore, h.firstProtected?, h.store]
    cases m.firstProtected? bytes.length <;> rfl
  cases hf : ins.form
  case sys => simp only [carryOut, hf, Except.map]
  case ret =>
    simp only [carryOut, hf, h.sp]
    split
    · rfl
    · simp only [h.leave hf ‹_›, Except.map]
  case call =>
    simp only [carryOut, hf, h.sp, h.enter hf]
    split <;> rfl
  case rnd => simp only [carryOut, hf, h.setV, Except.map]
  case ldVxDt => simp only [carryOut, hf, h.delay hf, h.setV, Except.map]
  case ldVxK =>
    have hk : (c m).keypad.first? = m.keypad.first? := by rw [h.keypad]
    simp only [carryOut, hf, hk, receive, h.setV]
    cases m.keypad.first? with
    | some key => rfl
    | none => exact congrArg (fun n => Except.ok (n, r)) (h.wait _)
  case ldBVx | ldMemVx =>
    simp only [carryOut, hf, h.v]
    exact hstore _
  all_goals simp only [carryOut, hf, h.obey, Except.map]

inductive Turns (m : Machine) (r : RandomSource) :
    Option Instruction → Machine → RandomSource → Prop where
  | waitsOn {x : Int} : m.awaiting = some x → m.keypad.first? = none → Turns m r none m r
  | takes {x : Int} {key : Fin 16} {ins : Instruction} : m.awaiting = some x →
      m.keypad.first? = some key → Instruction.ofWord? m.word = some ins →
      Turns m r (some ins) ({ m with awaiting := none }.receive (Fin.ofNat 16 x.toNat) key) r
  | carries {ins : Instruction} {m' : Machine} {r' : RandomSource} : m.awaiting = none →
      Instruction.ofWord? m.word = some ins → m.carryOut r ins = .ok (m', r') →
      Turns m r (if m'.isAwaiting then none else some ins) m' r'

/-- How a cycle fails. -/
inductive Fails (m : Machine) : Cause → Prop where
  | undecoded : (m.awaiting = none ∨ m.keypad.first?.isSome = true) →
      Instruction.ofWord? m.word = none → Fails m .noForm
  | refused {ins : Instruction} {cause : Cause} : m.awaiting = none →
      Instruction.ofWord? m.word = some ins → m.Refuses ins cause → Fails m cause

theorem turns_of_cycle {a : Option Instruction} (hc : m.cycle r = .ok (a, m', r')) :
    m.Turns r a m' r' := by
  simp only [cycle] at hc
  split at hc
  · rename_i x ha
    split at hc
    · rename_i hk
      cases hc
      exact .waitsOn ha hk
    · cases hc
    · rename_i hk hd
      cases hc
      exact .takes ha hk hd
  · rename_i ha
    split at hc
    · cases hc
    · rename_i ins hd
      split at hc
      · cases hc
      · rename_i hco
        cases hc
        exact .carries ha hd hco

theorem carryOut_of_turns {a : Option Instruction} (ha : m.awaiting = none) (ht : m.Turns r a m' r') :
    ∃ ins, Instruction.ofWord? m.word = some ins ∧ m.carryOut r ins = .ok (m', r') := by
  cases ht with
  | waitsOn hx =>
    rw [ha] at hx
    cases hx
  | takes hx =>
    rw [ha] at hx
    cases hx
  | carries _ hd hc => exact ⟨_, hd, hc⟩

theorem cycle_error_iff : m.cycle r = .error cause ↔ m.Fails cause := by
  constructor
  · intro hc
    simp only [cycle] at hc
    split at hc
    · split at hc
      · cases hc
      · rename_i hk hd
        cases hc
        exact .undecoded (.inr (by simp only [hk, Option.isSome_some])) hd
      · cases hc
    · rename_i ha
      split at hc
      · rename_i hd
        cases hc
        exact .undecoded (.inl ha) hd
      · rename_i ins hd
        split at hc
        · rename_i hco
          cases hc
          exact .refused ha hd (carryOut_error_iff.mp hco)
        · cases hc
  · intro hf
    cases hf with
    | undecoded hw hd =>
      simp only [cycle, hd]
      cases ha : m.awaiting with
      | none => rfl
      | some x =>
        obtain ⟨key, hk⟩ := Option.isSome_iff_exists.mp (hw.resolve_left (by simp [ha]))
        simp only [hk]
    | refused ha hd hr => simp only [cycle, ha, hd, carryOut_error_iff.mpr hr]

end Machine

namespace Engine

variable {e e' : Engine} {cause : Cause}

def Raises (e : Engine) (cause : Cause) : Prop :=
  ∃ e', step e = .error (e.faultHere cause) e'

theorem turns_of_step (h : e.machine.WellFormed) {a : Option Instruction}
    (hs : step e = .ok a e') : e.machine.Turns e.random a e'.machine e'.random := by
  obtain ⟨m, r, hc, rfl⟩ := step_ok h hs
  exact Machine.turns_of_cycle hc

/-- Where no key is awaited an instruction that is carried out is a completed cycle. -/
theorem step_of_carryOut (h : e.machine.WellFormed) (ha : e.machine.awaiting = none)
    {ins : Instruction} (hd : Instruction.ofWord? e.machine.word = some ins) {m : Machine}
    {r : RandomSource} (hc : e.machine.carryOut e.random ins = .ok (m, r)) :
    step e = .ok (if m.isAwaiting then none else some ins)
      ({ e with machine := m, random := r }.noted (e.machine.remarks e.trace)) := by
  rw [step_eq h.steady]
  simp only [Machine.cycle, ha, hd, hc]

/-- A cycle within the bounds completes, or fails for a cause. -/
theorem completes_or_raises (h : e.machine.WellFormed) :
    (∃ a e', step e = .ok a e') ∨ ∃ cause, e.Raises cause := by
  cases hs : step e with
  | ok a e' => exact .inl ⟨a, e', rfl⟩
  | error f e' =>
    obtain ⟨cause, -, rfl, -⟩ := step_error h hs
    exact .inr ⟨cause, e', hs⟩

theorem faultHere_injective {cause' : Cause} (h : e.faultHere cause = e.faultHere cause') :
    cause = cause' := by
  simp only [faultHere, Failure.fault.injEq, Fault.mk.injEq, and_true] at h
  exact h

theorem raises_iff (h : e.machine.WellFormed) : e.Raises cause ↔ e.machine.Fails cause := by
  rw [← Machine.cycle_error_iff (r := e.random), Raises]
  constructor
  · rintro ⟨e', hs⟩
    obtain ⟨cause', hc, hf, -⟩ := step_error h hs
    rw [faultHere_injective hf]
    exact hc
  · intro hc
    exact ⟨_, by rw [step_eq h.steady, hc]⟩

/-! ## Also out of the bounds -/

/-- Where no key is awaited a cycle carries its instruction out. -/
theorem step_of_idle (h : e.machine.awaiting = none) {ins : Instruction}
    (hd : Instruction.ofWord? e.machine.word = some ins) :
    ∃ notes, step e = (do
      perform ins
      return if (← get).machine.isAwaiting then none else some ins : Cycle (Option Instruction))
        (e.noted notes) := by
  by_cases ht : (e.trace && ins.form.executable) = true
  · refine ⟨[.executing e.machine.pc ins.opcode ins.form], ?_⟩
    simp only [step, bind, EStateM.bind, get_eq, h, decodeHere_eq, hd, if_pos ht, note_eq]
  · refine ⟨[], ?_⟩
    simp only [step, bind, EStateM.bind, get_eq, h, decodeHere_eq, hd, if_neg ht, noted_nil]

theorem perform_of_step (ha : e.machine.awaiting = none) {ins : Instruction}
    (hd : Instruction.ofWord? e.machine.word = some ins) (hs : step e = .ok a e') :
    ∃ notes, perform ins (e.noted notes) = .ok () e' ∧
      a = if e'.machine.isAwaiting then none else some ins := by
  obtain ⟨notes, hs'⟩ := step_of_idle ha hd
  rw [hs'] at hs
  refine ⟨notes, ?_⟩
  cases hp : perform ins (e.noted notes) with
  | ok u f =>
    simp only [bind, EStateM.bind, hp, get_eq, pure_eq, EStateM.Result.ok.injEq] at hs
    obtain ⟨rfl, rfl⟩ := hs
    exact ⟨rfl, rfl⟩
  | error f g =>
    simp only [bind, EStateM.bind, hp] at hs
    cases hs

/-- An instruction that needs nothing but the machine completes. -/
theorem step_of_obeyed (h : e.machine.awaiting = none) {ins : Instruction}
    (hd : Instruction.ofWord? e.machine.word = some ins)
    (hp : perform ins = change fun m => m.obey ins) :
    step e = .ok (some ins) e.next ∧ e.next.machine = e.machine.obey ins ∧
      e.next.random = e.random := by
  obtain ⟨notes, hs⟩ := step_of_idle h hd
  have hidle : (e.machine.obey ins).isAwaiting = false := by
    rw [Machine.isAwaiting, Machine.obey_awaiting, h]
    rfl
  simp only [bind, EStateM.bind, hp, change_eq, noted_machine, get_eq, hidle, pure_eq,
    Bool.false_eq_true, if_false] at hs
  rw [next_of_ok hs]
  exact ⟨hs, rfl, rfl⟩

theorem perform_of_stored {ins : Instruction} {bytes : List UInt8}
    (hb : e.machine.stored? ins = some bytes) :
    perform ins e = match e.machine.guardedStore bytes with
      | .error cause => .error (e.faultHere cause) e
      | .ok m => .ok () { e with machine := m } := by
  have hv : (e.machine.v.toList.take (ins.x + 1)).length = ins.x + 1 := by
    simp only [List.length_take, Vector.length_toList]
    omega
  simp only [Machine.stored?] at hb
  split at hb
  · rename_i hf
    cases hb
    simp only [perform, hf]
    exact guardedStore_eq (fun m => Machine.decimalDigits m.v[ins.x]) 3 e rfl
  · rename_i hf
    cases hb
    simp only [perform, hf]
    exact guardedStore_eq (fun m => m.v.toList.take (ins.x + 1)) (ins.x + 1) e hv
  · cases hb

/-- A store that completes was not refused. -/
theorem stores_of_step (h : e.machine.awaiting = none) {ins : Instruction}
    (hd : Instruction.ofWord? e.machine.word = some ins) {bytes : List UInt8}
    (hb : e.machine.stored? ins = some bytes) {a : Option Instruction} (hs : step e = .ok a e') :
    e.machine.firstProtected? bytes.length = none ∧
      e'.machine = (e.machine.poke e.machine.i bytes).advance := by
  obtain ⟨notes, hp, -⟩ := perform_of_step h hd hs
  rw [perform_of_stored (e := e.noted notes) hb] at hp
  simp only [noted_machine, Machine.guardedStore] at hp
  cases hfirst : e.machine.firstProtected? bytes.length with
  | some target =>
    rw [hfirst] at hp
    cases hp
  | none =>
    rw [hfirst] at hp
    cases hp
    exact ⟨rfl, rfl⟩

end Engine
end Chip8
