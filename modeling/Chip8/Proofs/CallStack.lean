import Chip8.Proofs.UnusedSlots

/-!
# Chip8.Proofs.CallStack

The return addresses of a machine as a list. The slots in use hold what completed calls pushed and
completed returns did not yet pop; no other cycle and no input between cycles touches them, whatever the
program writes over itself.

* `Machine.calls`    : the return addresses in use, the last call's at the end.
* `Engine.trackAll`  : the list that pushing and popping along some inputs makes.
* `Engine.Encloses`  : a call, and the inputs up to the return that brings the depth back.

`callStack_refines`: in a machine that was powered on, loaded and then driven in any way the slots in use
are that list, calls and returns fail exactly at its bounds, and the return that closes a call goes on
after it. Slots that are not in use make no difference to any machine.
-/

namespace Chip8

namespace Machine

variable {m m' : Machine} {r r' : RandomSource} {a : Option Instruction} {ins : Instruction}

def calls (m : Machine) : List Int :=
  m.stack.toList.take m.sp.toNat

theorem calls_congr (hstack : m'.stack = m.stack) (hsp : m'.sp = m.sp) : m'.calls = m.calls := by
  rw [calls, calls, hstack, hsp]

theorem length_calls (h : m.Steady) : (m.calls.length : Int) = m.sp := by
  have hr := h.sp_range
  simp only [calls, List.length_take, Vector.length_toList]
  omega

theorem calls_enter (h : m.Steady) (hsp : m.sp ≠ 16) (target : Int) :
    (m.enter target).calls = m.calls ++ [(((m.pc + 2) % 0x1000 : Nat) : Int)] := by
  have hr := h.sp_range
  have hpc : Memory.wrap (m.pc + 2) = (m.pc + 2) % 0x1000 := advance_pc m
  have hslot : (m.freeSlot : Nat) = m.sp.toNat := Nat.mod_eq_of_lt (by omega)
  have hnext : (m.sp + 1).toNat = m.sp.toNat + 1 := by omega
  have hlt : m.sp.toNat < (m.stack.toList.set m.sp.toNat (((m.pc + 2) % 0x1000 : Nat) : Int)).length := by
    simp only [List.length_set, Vector.length_toList]
    omega
  simp only [calls, enter, jump, Vector.toList_set, hslot, hnext, hpc]
  rw [List.take_succ_eq_append_getElem hlt, List.take_set_of_le (Nat.le_refl _),
    List.getElem_set_self]

theorem calls_leave (h : m.Steady) (hsp : m.sp ≠ 0) :
    m.calls = m.leave.calls ++ [m.stack[m.topSlot]] := by
  have hr := h.sp_range
  have hslot : (m.topSlot : Nat) = (m.sp - 1).toNat := Nat.mod_eq_of_lt (by omega)
  have hlast : m.sp.toNat = (m.sp - 1).toNat + 1 := by omega
  have hlt : (m.sp - 1).toNat < m.stack.toList.length := by
    simp only [Vector.length_toList]
    omega
  simp only [calls, leave, jump, hlast]
  rw [List.take_succ_eq_append_getElem hlt]
  simp only [Vector.getElem_toList, getElem_val, hslot]

/-- A return address is an address, so a return goes to all of it. -/
theorem pc_leave (h : m.WellFormed) : (m.leave.pc : Int) = m.stack[m.topSlot] := by
  have hr := h.stack_range m.topSlot
  simp only [leave, jump, Memory.wrap]
  omega

/-! ## What a cycle does to the stack -/

/-- What a cycle that completes does to the stack. -/
inductive Stacks (m : Machine) : Option Instruction → Machine → Prop where
  | pops {ins : Instruction} : ins.form = .ret → m.sp ≠ 0 → Stacks m (some ins) m.leave
  | pushes {ins : Instruction} : ins.form = .call → m.sp ≠ 16 →
      Stacks m (some ins) (m.enter ins.nnn)
  | keeps {a : Option Instruction} {m' : Machine} :
      (∀ ins, a = some ins → ins.form ≠ .ret ∧ ins.form ≠ .call) →
      m'.stack = m.stack → m'.sp = m.sp → Stacks m a m'

theorem stacks_of_turns (hw : m.AwaitsHere) (ht : m.Turns r a m' r') : m.Stacks a m' := by
  cases ht with
  | waitsOn => exact .keeps (fun _ h => by cases h) rfl rfl
  | takes hx _ hd =>
    -- the key goes to the instruction that waits for it, which is no return and no call
    obtain ⟨ins, hd', hf, -⟩ := hw _ hx
    rw [hd] at hd'
    cases hd'
    refine .keeps (fun _ h => ?_) rfl rfl
    cases h
    simp [hf]
  | @carries ins m' r' ha hd hco =>
    have hanswer (hk : m'.awaiting = m.awaiting) :
        (if m'.isAwaiting then none else some ins) = some ins := by
      rw [isAwaiting, hk, ha]
      rfl
    cases does_of_carryOut hco with
    | returns hf hsp =>
      rw [hanswer rfl]
      exact .pops hf hsp
    | calls hf hsp =>
      rw [hanswer rfl]
      exact .pushes hf hsp
    | stores hb =>
      rw [hanswer rfl]
      refine .keeps (fun _ h => ?_) rfl rfl
      cases h
      constructor <;> intro hf <;> simp only [stored?, hf] at hb <;> cases hb
    | waits => exact .keeps (fun _ h => by cases h) rfl rfl
    | keeps hret hcall _ hk =>
      rw [hanswer (congrArg (·.2.2.2.2) hk)]
      refine .keeps (fun _ h => ?_) (congrArg (·.2.1) hk) (congrArg (·.2.2.1) hk)
      cases h
      exact ⟨hret, hcall⟩

/-- What becomes of a list of return addresses: a completed call adds the address of the next
instruction, and a completed return takes the last one away. -/
def callsAfter (m : Machine) (l : List Int) (answer : Option Instruction) : List Int :=
  match answer.map Instruction.form with
  | some .call => l ++ [(((m.pc + 2) % 0x1000 : Nat) : Int)]
  | some .ret => l.dropLast
  | _ => l

theorem calls_of_stacks (h : m.Steady) (hs : m.Stacks a m') :
    m'.calls = m.callsAfter m.calls a := by
  cases hs with
  | pops hf hsp =>
    simp only [callsAfter, Option.map_some, hf]
    rw [calls_leave h hsp, List.dropLast_concat]
  | pushes hf hsp =>
    simp only [callsAfter, Option.map_some, hf]
    exact calls_enter h hsp _
  | keeps hn hstack hsp =>
    rw [calls_congr hstack hsp]
    cases a with
    | none => rfl
    | some ins =>
      obtain ⟨hret, hcall⟩ := hn ins rfl
      simp only [callsAfter, Option.map_some]
      split <;> simp_all

/-- No key is awaited where another instruction stands. -/
theorem awaiting_of_ofWord (hw : m.AwaitsHere) (hd : Instruction.ofWord? m.word = some ins)
    (hf : ins.form ≠ .ldVxK) : m.awaiting = none := by
  cases ha : m.awaiting with
  | none => rfl
  | some x =>
    obtain ⟨ins', hd', hf', -⟩ := hw x ha
    rw [hd] at hd'
    cases hd'
    exact absurd hf' hf

theorem fails_underflow_iff (h : m.Steady) (hw : m.AwaitsHere) :
    m.Fails .stackUnderflow ↔ m.word = 0x00EE ∧ m.calls = [] := by
  have hlen := length_calls h
  rw [← List.length_eq_zero_iff]
  constructor
  · intro hf
    cases hf with
    | refused _ hd hr =>
      cases hr with
      | underflow hf hsp =>
        have hform := Instruction.form_of_ofWord hd
        rw [hf, Form.ofWord?_eq_ret_iff] at hform
        exact ⟨hform, by omega⟩
  · rintro ⟨hword, hempty⟩
    have hd := Instruction.ofWord_of_form (Form.ofWord?_eq_ret_iff.mpr hword)
    exact .refused (awaiting_of_ofWord hw hd (by simp)) hd (.underflow rfl (by omega))

theorem fails_overflow_iff (h : m.Steady) (hw : m.AwaitsHere) :
    m.Fails .stackOverflow ↔ m.word / 0x1000 = 2 ∧ m.calls.length = 16 := by
  have hlen := length_calls h
  constructor
  · intro hf
    cases hf with
    | refused _ hd hr =>
      cases hr with
      | overflow hf hsp =>
        have hform := Instruction.form_of_ofWord hd
        rw [hf, Form.ofWord?_eq_call_iff] at hform
        exact ⟨hform, by omega⟩
  · rintro ⟨hword, hfull⟩
    have hd := Instruction.ofWord_of_form (Form.ofWord?_eq_call_iff.mpr hword)
    exact .refused (awaiting_of_ofWord hw hd (by simp)) hd (.overflow rfl (by omega))

theorem enter_of_stacks (hs : m.Stacks (some ins) m') (hf : ins.form = .call) :
    m.sp ≠ 16 ∧ m' = m.enter ins.nnn := by
  cases hs with
  | pops hret =>
    rw [hf] at hret
    cases hret
  | pushes _ hsp => exact ⟨hsp, rfl⟩
  | keeps hn => exact absurd hf (hn ins rfl).2

theorem leave_of_stacks (hs : m.Stacks (some ins) m') (hf : ins.form = .ret) :
    m.sp ≠ 0 ∧ m' = m.leave := by
  cases hs with
  | pops _ hsp => exact ⟨hsp, rfl⟩
  | pushes hcall =>
    rw [hf] at hcall
    cases hcall
  | keeps hn => exact absurd hf (hn ins rfl).1

end Machine

namespace Engine

variable {e e' : Engine}

/-- What becomes of a list of return addresses by an input. -/
def track (e : Engine) (l : List Int) : Input → List Int
  | .cycle =>
    match step e with
    | .ok answer _ => e.machine.callsAfter l answer
    | .error _ _ => l
  | _ => l

def trackAll (e : Engine) (l : List Int) : List Input → List Int
  | [] => l
  | i :: inputs => (e.accept i).trackAll (e.track l i) inputs

theorem track_cases (e : Engine) (l : List Int) (i : Input) :
    e.track l i = l ∨ (∃ a, e.track l i = l ++ [a]) ∨ e.track l i = l.dropLast := by
  cases i with
  | cycle =>
    simp only [track]
    split
    · simp only [Machine.callsAfter]
      split
      · exact .inr (.inl ⟨_, rfl⟩)
      · exact .inr (.inr rfl)
      · exact .inl rfl
    · exact .inl rfl
  | tick | holdKey | releaseAll => exact .inl rfl

theorem stacks_of_step (h : e.machine.WellFormed) (hw : e.machine.AwaitsHere)
    {a : Option Instruction} (hs : step e = .ok a e') : e.machine.Stacks a e'.machine :=
  Machine.stacks_of_turns hw (turns_of_step h hs)

theorem calls_accept (h : e.machine.WellFormed) (hw : e.machine.AwaitsHere) (i : Input) :
    (e.accept i).machine.calls = e.track e.machine.calls i := by
  cases i with
  | cycle =>
    simp only [accept, next, track]
    cases hs : step e with
    | ok a e' => exact Machine.calls_of_stacks h.steady (stacks_of_step h hw hs)
    | error f e' =>
      obtain ⟨cause, -, -, rfl⟩ := step_error h hs
      rfl
  | tick | releaseAll => rfl
  | holdKey key held =>
    obtain ⟨delay, sound, keypad, he⟩ := accept_of_ne_cycle (e := e)
      (i := .holdKey key held) fun h => by cases h
    rw [he]
    rfl

theorem calls_drive (h : e.machine.WellFormed) (hw : e.machine.AwaitsHere) (inputs : List Input) :
    (e.drive inputs).machine.calls = e.trackAll e.machine.calls inputs := by
  induction inputs generalizing e with
  | nil => rfl
  | cons i inputs ih =>
    rw [drive_cons, ih (wellFormed_accept h i) (awaitsHere_accept h hw i), calls_accept h hw i]
    rfl

/-! ## Calls and returns -/

/-- The next cycle completes an instruction of a form. -/
def Finishes (e : Engine) (form : Form) : Prop :=
  ∃ ins, step e = .ok (some ins) e.next ∧ ins.form = form

/-- The stack of an engine is a list of return addresses. -/
structure RefinesStack (e : Engine) (l : List Int) : Prop where
  inUse : e.machine.calls = l
  depth : e.machine.sp = l.length
  underflow : e.Raises .stackUnderflow ↔ e.machine.word = 0x00EE ∧ l = []
  overflow : e.Raises .stackOverflow ↔ e.machine.word / 0x1000 = 2 ∧ l.length = 16
  /-- Other returns complete, and go to the last address. -/
  returns : ∀ (outer : List Int) (a : Int), e.machine.word = 0x00EE → l = outer ++ [a] →
    e.Finishes .ret ∧ (e.next.machine.pc : Int) = a ∧ e.next.machine.calls = outer
  /-- Other calls complete. -/
  enters : e.machine.word / 0x1000 = 2 → l.length ≠ 16 →
    e.Finishes .call ∧ e.next.machine.pc = e.machine.word % 0x1000

theorem finishes_of_carryOut (h : e.machine.WellFormed) {ins : Instruction} {m : Machine}
    {r : RandomSource} (ha : e.machine.awaiting = none)
    (hd : Instruction.ofWord? e.machine.word = some ins)
    (hc : e.machine.carryOut e.random ins = .ok (m, r)) (hm : m.awaiting = none) :
    e.Finishes ins.form ∧ e.next.machine = m := by
  have hs : step e = .ok (some ins)
      ({ e with machine := m, random := r }.noted (e.machine.remarks e.trace)) := by
    rw [step_eq h.steady]
    simp only [Machine.cycle, ha, hd, hc, Machine.isAwaiting, hm]
    rfl
  have hnext := next_of_ok hs
  exact ⟨⟨ins, by rw [hnext, hs], rfl⟩, by rw [hnext, noted_machine]⟩

theorem refinesStack (h : e.machine.WellFormed) (hw : e.machine.AwaitsHere) :
    e.RefinesStack e.machine.calls := by
  have hlen := Machine.length_calls h.steady
  refine ⟨rfl, hlen.symm, ?_, ?_, ?_, ?_⟩
  · rw [raises_iff h, Machine.fails_underflow_iff h.steady hw]
  · rw [raises_iff h, Machine.fails_overflow_iff h.steady hw]
  · intro outer a hword hl
    have hd := Instruction.ofWord_of_form (Form.ofWord?_eq_ret_iff.mpr hword)
    have ha := Machine.awaiting_of_ofWord hw hd (by simp)
    have hsp : e.machine.sp ≠ 0 := by
      rw [hl, List.length_append, List.length_singleton] at hlen
      omega
    have hc : e.machine.carryOut e.random ⟨.ret, e.machine.word⟩ = .ok (e.machine.leave, e.random) :=
      if_neg hsp
    obtain ⟨hfin, hnext⟩ := finishes_of_carryOut h ha hd hc ha
    rw [Machine.calls_leave h.steady hsp] at hl
    obtain ⟨houter, hlast⟩ := List.append_inj' hl rfl
    cases hlast
    rw [hnext]
    exact ⟨hfin, Machine.pc_leave h, houter⟩
  · intro hword hfree
    have hd := Instruction.ofWord_of_form (Form.ofWord?_eq_call_iff.mpr hword)
    have ha := Machine.awaiting_of_ofWord hw hd (by simp)
    have hsp : e.machine.sp ≠ 16 := by omega
    have hc : e.machine.carryOut e.random ⟨.call, e.machine.word⟩ =
        .ok (e.machine.enter (e.machine.word % 0x1000 : Nat), e.random) := if_neg hsp
    obtain ⟨hfin, hnext⟩ := finishes_of_carryOut h ha hd hc ha
    rw [hnext]
    exact ⟨hfin, Memory.wrap_of_lt (Nat.mod_lt _ (by decide))⟩

/-- A call, and the inputs up to the return that first brings the depth back to what it was. -/
structure Encloses (e : Engine) (body : List Input) : Prop where
  call : e.Finishes .call
  deeper : ∀ k ≤ body.length, (e.next.drive (body.take k)).machine.sp ≠ e.machine.sp
  ret : (e.next.drive body).Finishes .ret
  back : (e.next.drive body).next.machine.sp = e.machine.sp

/-- An input that does not bring the depth back to that of `outer` leaves the address above it. -/
theorem prefix_accept (h : e.machine.WellFormed) (hw : e.machine.AwaitsHere) {outer : List Int}
    {a : Int} (hp : outer ++ [a] <+: e.machine.calls) {i : Input}
    (hdepth : (e.accept i).machine.sp ≠ outer.length) :
    outer ++ [a] <+: (e.accept i).machine.calls := by
  have hlen := Machine.length_calls (wellFormed_accept h i).steady
  rw [calls_accept h hw] at hlen ⊢
  obtain ht | ⟨b, ht⟩ | ht := track_cases e e.machine.calls i
  · rw [ht]
    exact hp
  · rw [ht]
    exact hp.trans (List.prefix_append _ _)
  · obtain ⟨inner, hinner⟩ := hp
    rw [ht, ← hinner] at hlen ⊢
    obtain rfl | ⟨inner, b, rfl⟩ := List.eq_nil_or_concat inner
    · rw [List.append_nil, List.dropLast_concat] at hlen
      exact absurd hlen.symm hdepth
    · rw [List.concat_eq_append, ← List.append_assoc, List.dropLast_concat]
      exact List.prefix_append _ _

theorem prefix_drive (h : e.machine.WellFormed) (hw : e.machine.AwaitsHere) {outer : List Int}
    {a : Int} (hp : outer ++ [a] <+: e.machine.calls) {body : List Input}
    (hdepth : ∀ k ≤ body.length, (e.drive (body.take k)).machine.sp ≠ outer.length) :
    outer ++ [a] <+: (e.drive body).machine.calls := by
  induction body generalizing e with
  | nil => exact hp
  | cons i body ih =>
    refine ih (wellFormed_accept h i) (awaitsHere_accept h hw i) (prefix_accept h hw hp ?_) ?_
    · exact hdepth 1 (Nat.succ_le_succ (Nat.zero_le _))
    · intro k hk
      exact hdepth (k + 1) (Nat.succ_le_succ hk)

/-- Execution goes on after the instruction at the program counter, with the return addresses as they
were. -/
structure Resumes (e e' : Engine) : Prop where
  pc : e'.machine.pc = (e.machine.pc + 2) % 0x1000
  calls : e'.machine.calls = e.machine.calls

/-- The return that closes a call goes on after the call. -/
theorem resumes_of_encloses (h : e.machine.WellFormed) (hw : e.machine.AwaitsHere)
    {body : List Input} (hc : e.Encloses body) : e.Resumes (e.next.drive body).next := by
  obtain ⟨call, hcall, hform⟩ := hc.call
  obtain ⟨ret, hret, hform'⟩ := hc.ret
  obtain ⟨hfree, hin⟩ := Machine.enter_of_stacks (stacks_of_step h hw hcall) hform
  have hn : e.next.machine.WellFormed := wellFormed_accept h .cycle
  have hnw : e.next.machine.AwaitsHere := awaitsHere_accept h hw .cycle
  have hg := wellFormed_drive hn body
  have hgw : (e.next.drive body).machine.AwaitsHere := awaitsHere_drive hn hnw body
  obtain ⟨hsome, hout⟩ := Machine.leave_of_stacks (stacks_of_step hg hgw hret) hform'
  have hlen := Machine.length_calls h.steady
  -- the return address of the call stays where the call put it
  have hp : e.machine.calls ++ [(((e.machine.pc + 2) % 0x1000 : Nat) : Int)] <+:
      (e.next.drive body).machine.calls := by
    have hpush := Machine.calls_enter h.steady hfree call.nnn
    rw [← hin] at hpush
    refine prefix_drive hn hnw (hpush ▸ List.prefix_rfl) ?_
    rw [hlen]
    exact hc.deeper
  have hlen' := Machine.length_calls (wellFormed_next hg).steady
  rw [hc.back, hout, ← hlen, Int.natCast_inj] at hlen'
  -- and is the last one when the depth is back
  rw [Machine.calls_leave hg.steady hsome] at hp
  have heq := hp.eq_of_length (by simp only [List.length_append, List.length_singleton, hlen'])
  obtain ⟨houter, hlast⟩ := List.append_inj' heq rfl
  simp only [List.cons.injEq, and_true] at hlast
  have hpc := Machine.pc_leave hg
  refine ⟨?_, ?_⟩
  · rw [hout]
    omega
  · rw [hout, houter]

/-- A loaded machine that was powered on awaits no key and has no return address. -/
theorem calls_loaded {program : List UInt8} {m : Machine}
    (hl : Machine.fresh.load program = .ok m) : m.awaiting = none ∧ m.calls = [] := by
  simp only [Machine.load] at hl
  split at hl
  · cases hl
    exact ⟨rfl, rfl⟩
  · cases hl

/-- **The call stack.** In a machine that was powered on, loaded and driven it is the list of the return
addresses that calls pushed and returns did not pop, and a call that is closed by its return resumes after
itself; slots that are not in use stay without effect in every machine. -/
theorem callStack_refines :
    (∀ (program : List UInt8) (e : Engine), Machine.fresh.load program = .ok e.machine →
      ∀ inputs : List Input,
        (e.drive inputs).RefinesStack (e.trackAll [] inputs) ∧
        ∀ body : List Input, (e.drive inputs).Encloses body →
          (e.drive inputs).Resumes ((e.drive inputs).next.drive body).next) ∧
    ∀ f g : Engine, f.machine.WellFormed → f.SameInUse g →
      ∀ inputs : List Input, (f.drive inputs).SameInUse (g.drive inputs) := by
  refine ⟨?_, fun f g h hs inputs => sameInUse_drive h hs inputs⟩
  intro program e hl inputs
  obtain ⟨hnone, hempty⟩ := calls_loaded hl
  have h := Machine.wellFormed_fresh.load hl
  have hw : e.machine.AwaitsHere := by
    intro x hx
    rw [hnone] at hx
    cases hx
  have hf := wellFormed_drive h inputs
  have hfw := awaitsHere_drive h hw inputs
  constructor
  · rw [← hempty, ← calls_drive h hw inputs]
    exact refinesStack hf hfw
  · intro body hc
    exact resumes_of_encloses hf hfw hc

def callAndReturn : Engine where
  machine := { Machine.fresh with
    memory := Memory.fresh.store 0x200 [0x22, 0x04, 0x12, 0x02, 0x00, 0xEE] }
  random := .ofBytes #[]
  trace := false
  notes := #[]

/-- The return closes the call, also if the timers tick in between. -/
theorem callAndReturn_resumes :
    callAndReturn.Encloses [.tick] ∧
      callAndReturn.Resumes (callAndReturn.next.drive [.tick]).next := by
  have hrun := callStack_refines.1 [0x22, 0x04, 0x12, 0x02, 0x00, 0xEE] callAndReturn rfl
  have hcall := (hrun []).1.enters (by decide +kernel) (by decide)
  have hret := (hrun [.cycle, .tick]).1.returns [] 0x202 (by decide +kernel) (by decide +kernel)
  have hbody : callAndReturn.drive [.cycle, .tick] = callAndReturn.next.drive [.tick] :=
    drive_cons _ _ _
  rw [hbody] at hret
  have hc : callAndReturn.Encloses [.tick] := by
    refine ⟨hcall.1, ?_, hret.1, by decide +kernel⟩
    intro k hk
    obtain rfl | rfl := Nat.le_one_iff_eq_zero_or_eq_one.mp hk
    · decide +kernel
    · decide +kernel
  exact ⟨hc, (hrun []).2 [.tick] hc⟩

end Engine
end Chip8
