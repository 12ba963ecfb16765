import Chip8.Proofs.Conduct

/-!
# Chip8.Proofs.KeyWait

Waiting for a key. Fx0A takes the lowest held key at once; with no key held it begins a wait, and every
cycle from then on polls the keys instead of going on. A poll that finds a key ends the wait, and leaves
what Fx0A would have left with those keys held.

* `Engine.Waits`    : a cycle begins a wait, and no cycle among the inputs after it finds a key held.
* `Engine.WaitsOut` : what becomes of such a wait.

`keyWait_protocol` is about every machine that awaits no key when it is first looked at, within its bounds
or not, and about every session that drives one.
-/

namespace Chip8

namespace Keypad

variable {pad : Keypad} {k : Fin 16}

theorem first?_eq_none_iff : pad.first? = none ↔ ∀ k : Fin 16, pad[k] = false := by
  simp only [first?, List.find?_eq_none, List.mem_finRange, forall_const, Bool.not_eq_true]

theorem first?_eq_some_iff :
    pad.first? = some k ↔ pad[k] = true ∧ ∀ j < k, pad[j] = false := by
  rw [first?, List.find?_eq_some_iff_getElem]
  constructor
  · rintro ⟨hk, i, hi, rfl, hlow⟩
    refine ⟨hk, fun j hj => ?_⟩
    rw [List.getElem_finRange] at hj
    have hj : (j : Nat) < i := hj
    have := hlow j hj
    rw [List.getElem_finRange] at this
    simpa using this
  · rintro ⟨hk, hlow⟩
    refine ⟨hk, k, by simp, by simp, fun j hj => ?_⟩
    have := hlow ⟨j, by omega⟩ hj
    rw [List.getElem_finRange]
    simpa using this

end Keypad

namespace Machine

/-- A machine with the timers and the keys of another: with all that comes from outside. -/
def withTimersAndKeys (m outside : Machine) : Machine :=
  { m with delay := outside.delay, sound := outside.sound, keypad := outside.keypad }

theorem awaitsHere_iff {m : Machine} :
    m.AwaitsHere ↔ ∀ r, m.awaiting = some r → ∃ x : Fin 16, r = x.val ∧ m.word = 0xF00A + 0x100 * x := by
  constructor
  · intro h r hr
    obtain ⟨ins, hd, hf, rfl⟩ := h r hr
    refine ⟨ins.x, rfl, ?_⟩
    have hins := congrArg Instruction.opcode (Instruction.eq_of_ldVxK hd hf)
    rw [Instruction.opcode_of_ofWord hd] at hins
    exact hins
  · intro h r hr
    obtain ⟨x, rfl, hword⟩ := h r hr
    have hform : Form.ofWord? m.word = some .ldVxK := by
      rw [Form.ofWord?_eq_ldVxK_iff]
      omega
    refine ⟨_, Instruction.ofWord_of_form hform, rfl, ?_⟩
    simp only [Instruction.x]
    omega

end Machine

namespace Engine

variable {e : Engine} {x : Fin 16} {body : List Input}

/-! ## Out of the bounds

Also a machine out of its bounds begins to wait at Fx0A only, and a cycle that fails there begins no
wait. -/

theorem awaiting_returnFromCall (e : Engine) :
    (ended (returnFromCall e)).machine.awaiting = e.machine.awaiting := by
  by_cases hsp : e.machine.sp = 0
  · simp only [returnFromCall, bind, EStateM.bind, get_eq, if_pos hsp, raise_eq, ended]
  · simp only [returnFromCall, bind, EStateM.bind, get_eq, if_neg hsp, change_eq]
    cases slot 16 .noSlotToRead (e.machine.sp - 1) <;> rfl

theorem awaiting_call (target : Nat) (e : Engine) :
    (ended (call target e)).machine.awaiting = e.machine.awaiting := by
  by_cases hsp : e.machine.sp = 16
  · simp only [call, bind, EStateM.bind, get_eq, if_pos hsp, raise_eq, ended]
  · simp only [call, bind, EStateM.bind, get_eq, if_neg hsp, Machine.assignStack]
    cases slot 16 .noSlotToWrite e.machine.sp <;> rfl

theorem awaiting_readDelay (y : Fin 16) (e : Engine) :
    (ended (readDelay y e)).machine.awaiting = e.machine.awaiting := by
  simp only [readDelay, bind, EStateM.bind, get_eq]
  cases hv : e.machine.assignV y e.machine.delay with
  | error d => rfl
  | ok m =>
    simp only [Machine.assignV] at hv
    split at hv <;> cases hv
    rfl

theorem awaiting_perform {ins : Instruction} (hf : ins.form ≠ .ldVxK) (e : Engine) :
    (ended (perform ins e)).machine.awaiting = e.machine.awaiting := by
  have hstore (bytes : Machine → List UInt8) (count : Nat) :
      (ended ((guardStore count >>= fun _ =>
        change fun m => (m.poke m.i (bytes m)).advance) e)).machine.awaiting = e.machine.awaiting := by
    simp only [bind, EStateM.bind, guardStore_eq]
    cases e.machine.firstProtected? count <;> rfl
  cases hform : ins.form
  case ldVxK => exact absurd hform hf
  case sys | rnd => simp only [perform, hform]; rfl
  case ret => simp only [perform, hform, awaiting_returnFromCall]
  case call => simp only [perform, hform, awaiting_call]
  case ldVxDt => simp only [perform, hform, awaiting_readDelay]
  case ldBVx =>
    simp only [perform, hform]
    exact hstore (fun m => Machine.decimalDigits m.v[ins.x]) 3
  case ldMemVx =>
    simp only [perform, hform]
    exact hstore (fun m => m.v.toList.take (ins.x + 1)) (ins.x + 1)
  all_goals simp only [perform, hform, change_eq, ended, Machine.obey_awaiting]

theorem step_of_awaiting {r : Int} (h : e.machine.awaiting = some r) : step e = poll r e := by
  simp only [step, bind, EStateM.bind, get_eq, h]

/-- Fx0A takes the lowest held key. -/
theorem step_takes (h : e.machine.awaiting = none) {ins : Instruction}
    (hd : Instruction.ofWord? e.machine.word = some ins) (hf : ins.form = .ldVxK) {key : Fin 16}
    (hk : e.machine.keypad.first? = some key) :
    step e = .ok (some ins) e.next ∧ e.next.machine = e.machine.receive ins.x key ∧
      e.next.random = e.random := by
  obtain ⟨notes, hs⟩ := step_of_idle h hd
  have hwait : (e.machine.receive ins.x key).isAwaiting = false := by
    simp only [Machine.isAwaiting, Machine.receive, Machine.advance_awaiting, Machine.setV_awaiting, h]
    rfl
  simp only [bind, EStateM.bind, perform, hf, takeKey_eq, noted_machine, hk, get_eq, hwait, pure_eq,
    Bool.false_eq_true, if_false] at hs
  rw [next_of_ok hs]
  exact ⟨hs, rfl, rfl⟩

theorem step_unanswered {r : Int} (h : e.machine.awaiting = some r)
    (hk : ∀ key : Fin 16, e.machine.keypad[key] = false) : step e = .ok none e := by
  rw [step_of_awaiting h]
  simp only [poll, bind, EStateM.bind, get_eq, Keypad.first?_eq_none_iff.mpr hk]
  rfl

/-- A poll that finds a key ends the wait with the lowest one. -/
theorem step_answers (h : e.machine.awaiting = some (x.val : Int)) {ins : Instruction}
    (hd : Instruction.ofWord? e.machine.word = some ins) {key : Fin 16}
    (hk : e.machine.keypad.first? = some key) :
    step e = .ok (some ins) e.next ∧
      e.next.machine = { e.machine with awaiting := none }.receive x key ∧
      e.next.random = e.random := by
  have hx : Fin.ofNat 16 (x.val : Int).toNat = x := Fin.ext (Nat.mod_eq_of_lt x.isLt)
  have hs := step_of_awaiting h
  rw [poll_eq (by omega)] at hs
  simp only [hk, hd, hx] at hs
  rw [next_of_ok hs]
  exact ⟨hs, rfl, rfl⟩

/-- Fx0A with no key held begins to wait, and changes nothing else. -/
theorem step_begins (h : e.machine.awaiting = none) {ins : Instruction}
    (hd : Instruction.ofWord? e.machine.word = some ins) (hf : ins.form = .ldVxK)
    (hk : e.machine.keypad.first? = none) :
    step e = .ok none e.next ∧
      e.next.machine = { e.machine with awaiting := some (ins.x.val : Int) } ∧
      e.next.random = e.random := by
  obtain ⟨notes, hs⟩ := step_of_idle h hd
  simp only [bind, EStateM.bind, perform, hf, takeKey_eq, noted_machine, hk, get_eq, pure_eq] at hs
  have hs : step e = .ok none _ := hs
  rw [next_of_ok hs]
  exact ⟨hs, rfl, rfl⟩

theorem next_of_idle (h : e.machine.awaiting = none) :
    e.next.machine.awaiting = none ∨
      ∃ ins, Instruction.ofWord? e.machine.word = some ins ∧ ins.form = .ldVxK ∧
        e.machine.keypad.first? = none := by
  cases hd : Instruction.ofWord? e.machine.word with
  | none =>
    left
    simp only [next_eq, step, bind, EStateM.bind, get_eq, h, decodeHere_eq, hd, ended]
  | some ins =>
    by_cases hf : ins.form = .ldVxK
    · cases hk : e.machine.keypad.first? with
      | none => exact .inr ⟨ins, rfl, hf, rfl⟩
      | some key =>
        left
        rw [(step_takes h hd hf hk).2.1]
        exact h
    · left
      obtain ⟨notes, hs⟩ := step_of_idle h hd
      have hp := awaiting_perform hf (e.noted notes)
      rw [next_eq, hs]
      simp only [bind, EStateM.bind]
      generalize perform ins (e.noted notes) = res at hp ⊢
      cases res with
      | ok u g => exact hp.trans h
      | error x g => exact hp.trans h

/-! ## Waits -/

theorem awaitsHere_next (h : e.machine.AwaitsHere) : e.next.machine.AwaitsHere := by
  cases ha : e.machine.awaiting with
  | none =>
    obtain hn | ⟨ins, hd, hf, hk⟩ := next_of_idle ha
    · intro r hr
      rw [hn] at hr
      cases hr
    · rw [(step_begins ha hd hf hk).2.1]
      intro r hr
      cases hr
      exact ⟨ins, hd, hf, rfl⟩
  | some r =>
    obtain ⟨ins, hd, hf, rfl⟩ := h r ha
    cases hk : e.machine.keypad.first? with
    | none =>
      rw [next_of_ok (step_unanswered ha (Keypad.first?_eq_none_iff.mp hk))]
      exact h
    | some key =>
      rw [(step_answers ha hd hk).2.1]
      intro r hr
      cases hr

theorem awaitsHere_of_drive (h : e.machine.AwaitsHere) (inputs : List Input) :
    (e.drive inputs).machine.AwaitsHere := by
  refine drive_invariant (P := fun e => e.machine.AwaitsHere) (fun e i he => ?_) h inputs
  by_cases hi : i = .cycle
  · subst hi
    exact awaitsHere_next he
  · obtain ⟨delay, sound, keypad, hacc⟩ := accept_of_ne_cycle (e := e) hi
    rw [hacc]
    exact he

structure Waits (e : Engine) (x : Fin 16) (body : List Input) : Prop where
  idle : e.machine.awaiting = none
  begun : e.next.machine.awaiting = some (x.val : Int)
  unanswered : ∀ k < body.length, body[k]? = some .cycle →
    ∀ key : Fin 16, (e.next.drive (body.take k)).machine.keypad[key] = false

theorem drive_unanswered {r : Int} (h : e.machine.awaiting = some r)
    (hk : ∀ k < body.length, body[k]? = some .cycle →
      ∀ key : Fin 16, (e.drive (body.take k)).machine.keypad[key] = false) :
    e.drive body = { e with machine := e.machine.withTimersAndKeys (e.drive body).machine } := by
  induction body generalizing e with
  | nil => rfl
  | cons i body ih =>
    -- the first input changes timers and keys only, so the wait is still pending behind it
    obtain ⟨delay, sound, keypad, hacc⟩ : ∃ delay sound keypad,
        e.accept i = { e with machine := { e.machine with delay, sound, keypad } } := by
      by_cases hi : i = .cycle
      · subst hi
        have hs := step_unanswered h (hk 0 (Nat.succ_pos _) rfl)
        exact ⟨_, _, _, next_of_ok hs⟩
      · exact accept_of_ne_cycle hi
    have hrest := ih (e := e.accept i) (by rw [hacc]; exact h) (fun k hlt hc =>
      hk (k + 1) (Nat.succ_lt_succ hlt) hc)
    rw [drive_cons, hrest, hacc]
    rfl

theorem Waits.take (h : e.Waits x body) (k : Nat) : e.Waits x (body.take k) where
  idle := h.idle
  begun := h.begun
  unanswered j hj hc := by
    rw [List.length_take] at hj
    rw [List.getElem?_take_of_lt (by omega)] at hc
    rw [List.take_take, Nat.min_eq_left (by omega)]
    exact h.unanswered j (by omega) hc

theorem Waits.begins (h : e.Waits x body) :
    ∃ ins, Instruction.ofWord? e.machine.word = some ins ∧ ins.form = .ldVxK ∧ ins.x = x ∧
      step e = .ok none e.next ∧
      e.next.machine = { e.machine with awaiting := some (x.val : Int) } ∧
      e.next.random = e.random := by
  obtain hn | ⟨ins, hd, hf, hk⟩ := next_of_idle h.idle
  · have := h.begun
    rw [hn] at this
    cases this
  · obtain ⟨hs, hm, hr⟩ := step_begins h.idle hd hf hk
    have hx := h.begun
    rw [hm] at hx
    have hx : ins.x = x := by
      simp only [Option.some.injEq] at hx
      omega
    subst hx
    exact ⟨ins, hd, hf, rfl, hs, hm, hr⟩

/-- A poll finds a key: the wait for `x` that began at `e` ends in `g`. -/
structure Answers (e : Engine) (x key : Fin 16) (g : Engine) : Prop where
  /-- The cycle completes Fx0A. -/
  completes : step g = .ok (some ⟨.ldVxK, 0xF00A + 0x100 * x⟩) g.next
  /-- It puts the key into `x`, ends the wait and goes on. -/
  machine : g.next.machine = { g.machine with
    v := g.machine.v.set x (UInt8.ofNat key) x.isLt
    awaiting := none
    pc := (g.machine.pc + 2) % 0x1000 }
  random : g.next.random = g.random
  /-- So does Fx0A itself with those timers and keys. -/
  atOnce : ∃ f, step { e with machine := e.machine.withTimersAndKeys g.machine } =
    .ok (some ⟨.ldVxK, 0xF00A + 0x100 * x⟩) f ∧ f.core = g.next.core

/-- What becomes of the wait for `x` that begins at `e`, with the inputs `body` after it. -/
structure WaitsOut (e : Engine) (x : Fin 16) (body : List Input) : Prop where
  begins : step e = .ok none e.next
  /-- Only timers and keys change. -/
  still : (e.next.drive body).machine =
      { e.machine.withTimersAndKeys (e.next.drive body).machine with
        awaiting := some (x.val : Int) } ∧
    (e.next.drive body).random = e.random
  /-- Every cycle reports the wait. -/
  reports : ∀ k < body.length, body[k]? = some .cycle →
    step (e.next.drive (body.take k)) = .ok none (e.next.drive (body.take k))
  /-- The lowest key that is then held ends it. -/
  answers : ∀ key : Fin 16, (e.next.drive body).machine.keypad[key] = true →
    (∀ j < key, (e.next.drive body).machine.keypad[j] = false) →
    e.Answers x key (e.next.drive body)

theorem Waits.still (h : e.Waits x body) :
    (e.next.drive body).machine =
      { e.machine.withTimersAndKeys (e.next.drive body).machine with
        awaiting := some (x.val : Int) } ∧
    (e.next.drive body).random = e.random := by
  obtain ⟨ins, -, -, -, -, hm, hr⟩ := h.begins
  have hstill := drive_unanswered h.begun h.unanswered
  constructor
  · have hmachine := congrArg Engine.machine hstill
    rw [hm] at hmachine
    exact hmachine
  · rw [hstill]
    exact hr

theorem Waits.answers (h : e.Waits x body) {key : Fin 16}
    (hk : (e.next.drive body).machine.keypad.first? = some key) :
    e.Answers x key (e.next.drive body) := by
  obtain ⟨ins, hd, hf, rfl, -, -, -⟩ := h.begins
  obtain ⟨hm, hr⟩ := h.still
  generalize e.next.drive body = g at hk hm hr ⊢
  have hins := Instruction.eq_of_ldVxK hd hf
  have hg : Instruction.ofWord? g.machine.word = some ins := by
    rw [hm]
    exact hd
  -- the machine without its wait is the one that Fx0A would have found
  have hidle : { g.machine with awaiting := none } = e.machine.withTimersAndKeys g.machine := by
    rw [hm]
    simp only [Machine.withTimersAndKeys, h.idle]
  have hwait : g.machine.awaiting = some (ins.x.val : Int) := by rw [hm]
  obtain ⟨hs, hnext, hrandom⟩ := step_answers hwait hg hk
  rw [hidle] at hnext
  have htakes := step_takes (e := { e with machine := e.machine.withTimersAndKeys g.machine })
    h.idle hd hf hk
  obtain ⟨hs', hnext', hrandom'⟩ := htakes
  rw [hins] at hs hs'
  refine ⟨hs, ?_, hrandom, _, hs', ?_⟩
  · have hpc : Memory.wrap (g.machine.pc + 2) = (g.machine.pc + 2) % 0x1000 := g.machine.advance_pc
    rw [hnext, ← hidle, ← hpc]
    rfl
  · rw [core_eq_iff, hnext', hrandom', hnext, hrandom, hr]
    exact ⟨rfl, rfl⟩

theorem Waits.waitsOut (h : e.Waits x body) : e.WaitsOut x body := by
  obtain ⟨ins, -, -, -, hs, -, -⟩ := h.begins
  refine ⟨hs, h.still, ?_, ?_⟩
  · intro k hk hc
    have hstill := (h.take k).still.1
    refine step_unanswered (r := x.val) ?_ (h.unanswered k hk hc)
    rw [hstill]
  · intro key hkey hlow
    exact h.answers (Keypad.first?_eq_some_iff.mpr ⟨hkey, hlow⟩)

end Engine

namespace Session

open Engine (Input)

/-! ## What a run says of a wait -/

theorem execute_unanswered {σ : Type} {hook : Hook σ} {e : Engine} {r : Int} {n : Nat} {t : σ}
    (h : e.machine.awaiting = some r) (hk : ∀ key : Fin 16, e.machine.keypad[key] = false) :
    Engine.execute hook n e t = .ok (min n 1) (e, t) := by
  cases n with
  | zero => rfl
  | succ n =>
    have hask : hook.ask e.machine t = (true, t) := by
      simp only [Hook.ask, Machine.isAwaiting, h, Option.isSome_some, if_true]
    have hmin : min (n + 1) 1 = 0 + 1 := by omega
    rw [hmin]
    simp only [Engine.execute, Engine.executeFrom, hask, Engine.step_unanswered h hk]

theorem step_unanswered {s : Session} {r : Int} (h : s.machine.awaiting = some r)
    (hk : ∀ key : Fin 16, s.machine.keypad[key] = false) :
    step s = .ok (awaitingKey s.machine.pc) { s with cycles := s.cycles + 1 } := by
  have hs : Engine.step s.engine = .ok none s.engine := Engine.step_unanswered h hk
  rw [step_session_eq, hs]

/-- A run while a wait is not answered polls the keys once, if it is to run at all. -/
theorem run_unanswered {s : Session} {r : Int} (h : s.machine.awaiting = some r)
    (hk : ∀ key : Fin 16, s.machine.keypad[key] = false) (budget : Int) :
    run budget .debugger s = .ok (awaitingKey s.machine.pc)
      ⟨s.engine, s.debugger.clearLast, s.record, s.cycles + min budget.toNat 1⟩ := by
  rw [run_eq]
  by_cases hp : 0 < budget ∧ s.debugger.hasBreakpoint s.machine.pc = true
  · have hmin : min budget.toNat 1 = 1 := by omega
    have hstep := step_unanswered (s := s.control Debugger.clearLast) h hk
    rw [if_pos hp, hstep, hmin]
    rfl
  · have hw : s.engine.machine.isAwaiting = true := by
      simp only [Machine.isAwaiting]
      exact Option.isSome_iff_exists.mpr ⟨r, h⟩
    rw [if_neg hp, runBulk_eq]
    simp only [control]
    rw [execute_unanswered h hk]
    dsimp only
    rw [outcome_of_awaiting hw]
    rfl

/-- However cycles are run, the wait is reported and nothing else happens. -/
structure ReportsWait (s : Session) : Prop where
  cycle : cycle s = .ok none s
  execute : ∀ watch (budget : Int), 0 < budget → execute watch budget s = .ok 1 s
  step : ∃ s', step s = .ok (awaitingKey s.machine.pc) s' ∧ s'.engine = s.engine
  run : ∀ budget, ∃ s', run budget .debugger s = .ok (awaitingKey s.machine.pc) s' ∧
    s'.engine = s.engine

theorem reportsWait {s : Session} {r : Int} (h : s.machine.awaiting = some r)
    (hk : ∀ key : Fin 16, s.machine.keypad[key] = false) : s.ReportsWait where
  cycle := by
    have hs : Engine.step s.engine = .ok none s.engine := Engine.step_unanswered h hk
    simp only [Session.cycle, hs]
  execute watch budget hb := by
    have hmin : min budget.toNat 1 = 1 := by omega
    have hx : Engine.execute watch.hook budget.toNat s.engine (s.debugger, s.record) =
        .ok (min budget.toNat 1) (s.engine, s.debugger, s.record) := execute_unanswered h hk
    rw [hmin] at hx
    simp only [Session.execute, hx]
  step := ⟨_, step_unanswered h hk, rfl⟩
  run budget := ⟨_, run_unanswered h hk budget, rfl⟩

/-- **The key wait.** Of a machine that awaits no key at first: a wait is pending only at its own Fx0A;
from its first cycle to the first that finds a key nothing changes but timers and keys; and that cycle
does what Fx0A would have done. Bulk cycles, steps and runs are rows of such cycles, and report a wait
that no key answers. -/
theorem keyWait_protocol :
    (∀ e : Engine, e.machine.awaiting = none → ∀ inputs : List Input,
      (∀ r, (e.drive inputs).machine.awaiting = some r →
        ∃ x : Fin 16, r = x.val ∧ (e.drive inputs).machine.word = 0xF00A + 0x100 * x) ∧
      ∀ (x : Fin 16) (body : List Input), (e.drive inputs).Waits x body →
        (e.drive inputs).WaitsOut x body) ∧
    ∀ s : Session,
      (∀ acts : List Act, (s.conduct acts).engine.core = (s.engine.drive (s.allInputs acts)).core) ∧
      ∀ r, s.machine.awaiting = some r → (∀ key : Fin 16, s.machine.keypad[key] = false) →
        s.ReportsWait := by
  constructor
  · intro e h inputs
    have hw : e.machine.AwaitsHere := by
      intro r hr
      rw [h] at hr
      cases hr
    have hwaits := Machine.awaitsHere_iff.mp (Engine.awaitsHere_of_drive hw inputs)
    exact ⟨hwaits, fun x body hb => hb.waitsOut⟩
  · intro s
    exact ⟨core_conduct s, fun r h hk => reportsWait h hk⟩

def awaitFive : Session :=
  (start (.ofBytes #[]) false).play [.load [0xF5, 0x0A]]

/-- Key 7 is let go before the keys are polled; keys 9 and 3 are held when they are polled again. -/
def tapThenHold : List Input :=
  [.tick, .holdKey (.number 7) true, .holdKey (.number 7) false, .cycle,
    .holdKey (.number 9) true, .holdKey (.number 3) true]

theorem awaitFive_takes_three :
    awaitFive.engine.Waits 5 tapThenHold ∧ awaitFive.engine.WaitsOut 5 tapThenHold ∧
      awaitFive.engine.Answers 5 3 (awaitFive.engine.next.drive tapThenHold) ∧
      (left step awaitFive).ReportsWait := by
  have hidle : awaitFive.engine.machine.awaiting = none := by decide +kernel
  have hwaits : awaitFive.engine.Waits 5 tapThenHold :=
    ⟨hidle, by decide +kernel, by decide +kernel⟩
  have hout := (keyWait_protocol.1 awaitFive.engine hidle []).2 5 tapThenHold hwaits
  refine ⟨hwaits, hout, hout.answers 3 (by decide +kernel) (by decide +kernel), ?_⟩
  exact (keyWait_protocol.2 (left step awaitFive)).2 5 (by decide +kernel) (by decide +kernel)

end Session
end Chip8
