import Chip8.Proofs.Bounds
import Chip8.Proofs.Decoding

/-!
# Chip8.Proofs.Cycle

One cycle of a machine within its bounds, without the log. `Machine.cycle` says what a cycle makes of
a machine and its random bytes, or why it refuses; it decides before it changes anything.
`Engine.step_eq` says that the engine computes it: within the bounds a cycle ends in no defect, a
cycle that fails keeps the machine and the random bytes, and its fault names the program counter and
the word there.
-/

namespace Chip8

namespace Instruction

theorem decode_word (m : Machine) (a : Option Int) :
    decode m.word a = match ofWord? m.word with
      | some ins => .ok ins
      | none => .error ⟨.noForm, a, some m.word⟩ := by
  have hw : wordOf m.word = m.word := by
    have := m.word_lt
    simp only [wordOf]
    omega
  have hdecode : decode m.word a = match ofWord? (wordOf m.word) with
      | some ins => .ok ins
      | none => .error ⟨.noForm, a, some (wordOf m.word)⟩ := rfl
  rw [hdecode, hw]

end Instruction

namespace Machine

/-- The slot that the next return address goes to. -/
def freeSlot (m : Machine) : Fin 16 := Fin.ofNat 16 m.sp.toNat

/-- The slot of the last return address. -/
def topSlot (m : Machine) : Fin 16 := Fin.ofNat 16 (m.sp - 1).toNat

/-- Keeps the address of the next instruction and goes to `a`. -/
def enter (m : Machine) (a : Int) : Machine :=
  { m with
    stack := m.stack.set m.freeSlot (Memory.wrap (m.pc + 2) : Int) m.freeSlot.isLt
    sp := m.sp + 1 }.jump a

/-- Goes to the last return address and forgets it. -/
def leave (m : Machine) : Machine :=
  { m with sp := m.sp - 1 }.jump m.stack[m.topSlot]

def receive (m : Machine) (x key : Fin 16) : Machine :=
  (m.setV x (UInt8.ofNat key)).advance

/-- What a store of `bytes` at I does, or why it is refused. -/
def guardedStore (m : Machine) (bytes : List UInt8) : Except Cause Machine :=
  match m.firstProtected? bytes.length with
  | some target => .error (.protectedWrite target)
  | none => .ok (m.poke m.i bytes).advance

/-- What an instruction makes of a machine within its bounds, or why it is refused. -/
def carryOut (m : Machine) (r : RandomSource) (ins : Instruction) :
    Except Cause (Machine × RandomSource) :=
  match ins.form with
  | .sys => .error .machineCode
  | .ret => if m.sp = 0 then .error .stackUnderflow else .ok (m.leave, r)
  | .call => if m.sp = 16 then .error .stackOverflow else .ok (m.enter ins.nnn, r)
  | .rnd => .ok ((m.setV ins.x (r.next.1 &&& ins.kk)).advance, r.next.2)
  | .ldVxDt => .ok ((m.setV ins.x (UInt8.ofNat m.delay.toNat)).advance, r)
  | .ldVxK =>
    match m.keypad.first? with
    | some key => .ok (m.receive ins.x key, r)
    | none => .ok ({ m with awaiting := some (ins.x.val : Int) }, r)
  | .ldBVx => (m.guardedStore (decimalDigits m.v[ins.x])).map (·, r)
  | .ldMemVx => (m.guardedStore (m.v.toList.take (ins.x + 1))).map (·, r)
  | _ => .ok (m.obey ins, r)

def cycle (m : Machine) (r : RandomSource) :
    Except Cause (Option Instruction × Machine × RandomSource) :=
  match m.awaiting with
  | some x =>
    match m.keypad.first?, Instruction.ofWord? m.word with
    | none, _ => .ok (none, m, r)
    | some _, none => .error .noForm
    | some key, some ins =>
      .ok (some ins, { m with awaiting := none }.receive (Fin.ofNat 16 x.toNat) key, r)
  | none =>
    match Instruction.ofWord? m.word with
    | none => .error .noForm
    | some ins =>
      match m.carryOut r ins with
      | .error cause => .error cause
      | .ok (m', r') => .ok (if m'.isAwaiting then none else some ins, m', r')

/-- What an instruction notes down: that it waits for a key. -/
def waitRemark (m : Machine) (ins : Instruction) : List Note :=
  if ins.form = .ldVxK ∧ m.keypad.first? = none then [.awaitingKey ins.x] else []

/-- What a cycle notes down. -/
def remarks (m : Machine) (trace : Bool) : List Note :=
  match m.awaiting, m.keypad.first?, Instruction.ofWord? m.word with
  | some x, some key, some _ => [.keyTaken x key]
  | none, _, some ins =>
    (if trace && ins.form.executable then [.executing m.pc ins.opcode ins.form] else []) ++
      m.waitRemark ins
  | _, _, _ => []

namespace WellFormed

variable {m m' : Machine} {r r' : RandomSource}

theorem enter (h : m.WellFormed) (hsp : m.sp ≠ 16) (a : Int) : (m.enter a).WellFormed := by
  have hr := h.sp_range
  refine ((h.setStack m.freeSlot _).setSp ?_).jump a
  omega

theorem leave (h : m.WellFormed) (hsp : m.sp ≠ 0) : m.leave.WellFormed := by
  have hr := h.sp_range
  refine (h.setSp ?_).jump _
  omega

theorem receive (h : m.WellFormed) (x key : Fin 16) : (m.receive x key).WellFormed :=
  (h.setV _ _).advance

theorem guardedStore (h : m.WellFormed) {bytes : List UInt8}
    (hs : m.guardedStore bytes = .ok m') : m'.WellFormed := by
  simp only [Machine.guardedStore] at hs
  split at hs
  · cases hs
  · cases hs
    exact (h.poke _ _).advance

theorem carryOut (h : m.WellFormed) {ins : Instruction}
    (hc : m.carryOut r ins = .ok (m', r')) : m'.WellFormed := by
  simp only [Machine.carryOut] at hc
  split at hc
  case h_1 => cases hc
  case h_2 =>
    split at hc
    · cases hc
    · rename_i hsp
      cases hc
      exact h.leave hsp
  case h_3 =>
    split at hc
    · cases hc
    · rename_i hsp
      cases hc
      exact h.enter hsp _
  case h_4 | h_5 =>
    cases hc
    exact (h.setV _ _).advance
  case h_6 =>
    split at hc
    · cases hc
      exact h.receive _ _
    · cases hc
      exact h.setAwaiting _
  case h_7 | h_8 =>
    simp only [Except.map] at hc
    split at hc
    · cases hc
    · rename_i hs
      cases hc
      exact h.guardedStore hs
  case h_9 =>
    cases hc
    exact h.obey _

theorem cycle (h : m.WellFormed) {a : Option Instruction}
    (hc : m.cycle r = .ok (a, m', r')) : m'.WellFormed := by
  simp only [Machine.cycle] at hc
  split at hc
  · split at hc
    · cases hc
      exact h
    · cases hc
    · cases hc
      exact h.clearAwaiting.receive _ _
  · split at hc
    · cases hc
    · split at hc
      · cases hc
      · rename_i hco
        cases hc
        exact h.carryOut hco

end WellFormed

/-- A cycle answers with no instruction exactly if it ends awaiting a key. -/
theorem isAwaiting_of_cycle {m m' : Machine} {r r' : RandomSource} {a : Option Instruction}
    (hc : m.cycle r = .ok (a, m', r')) : m'.isAwaiting = a.isNone := by
  simp only [cycle] at hc
  split at hc
  · rename_i ha
    split at hc
    · cases hc
      simp only [isAwaiting, ha, Option.isSome_some, Option.isNone_none]
    · cases hc
    · cases hc
      rfl
  · split at hc
    · cases hc
    · split at hc
      · cases hc
      · cases hc
        split <;> simp_all

/-- Only Fx0A with no key held begins to wait, and it changes nothing else. -/
theorem awaiting_of_carryOut {m m' : Machine} {r r' : RandomSource} {ins : Instruction}
    (hc : m.carryOut r ins = .ok (m', r')) :
    m'.awaiting = m.awaiting ∨ m' = { m with awaiting := some (ins.x.val : Int) } := by
  have guarded {bytes : List UInt8} (hs : m.guardedStore bytes = .ok m') :
      m'.awaiting = m.awaiting := by
    simp only [guardedStore] at hs
    split at hs <;> cases hs
    simp only [advance_awaiting, poke_awaiting]
  simp only [carryOut] at hc
  split at hc
  case h_1 => cases hc
  case h_2 | h_3 =>
    split at hc <;> cases hc
    exact .inl rfl
  case h_4 | h_5 =>
    cases hc
    exact .inl rfl
  case h_6 =>
    split at hc <;> cases hc
    · exact .inl rfl
    · exact .inr rfl
  case h_7 | h_8 =>
    simp only [Except.map] at hc
    split at hc
    · cases hc
    · rename_i hs
      cases hc
      exact .inl (guarded hs)
  case h_9 =>
    cases hc
    exact .inl (obey_awaiting m ins)

/-- A cycle that ends awaiting a key changes nothing but that. -/
theorem eq_of_cycle_none {m m' : Machine} {r r' : RandomSource}
    (hc : m.cycle r = .ok (none, m', r')) : m' = { m with awaiting := m'.awaiting } := by
  have ha := isAwaiting_of_cycle hc
  simp only [cycle] at hc
  split at hc
  · split at hc <;> cases hc
    rfl
  · rename_i hm
    split at hc
    · cases hc
    · split at hc
      · cases hc
      · rename_i hco
        simp only [Except.ok.injEq, Prod.mk.injEq] at hc
        obtain ⟨-, rfl, -⟩ := hc
        obtain he | he := awaiting_of_carryOut hco
        · simp only [isAwaiting, he, hm, Option.isSome_none, Option.isNone_none] at ha
          cases ha
        · rw [he]

/-- The bounds that a cycle relies on: what numbers a stack slot or a register, and what goes into a
register. -/
structure Steady (m : Machine) : Prop where
  sp_range : 0 ≤ m.sp ∧ m.sp ≤ 16
  delay_range : 0 ≤ m.delay ∧ m.delay < 0x100
  awaiting_range : ∀ x, m.awaiting = some x → 0 ≤ x ∧ x < 16

theorem WellFormed.steady {m : Machine} (h : m.WellFormed) : m.Steady := { h with }

theorem waitRemark_of_error {m : Machine} {r : RandomSource} {ins : Instruction}
    {cause : Cause} (hc : m.carryOut r ins = .error cause) : m.waitRemark ins = [] := by
  refine if_neg fun ⟨hf, hk⟩ => ?_
  simp only [Machine.carryOut, hf, hk] at hc
  cases hc

end Machine

namespace Engine

variable {e : Engine}

def noted (e : Engine) (notes : List Note) : Engine :=
  { e with notes := e.notes ++ notes.toArray }

@[simp] theorem noted_machine (e : Engine) (l : List Note) : (e.noted l).machine = e.machine := rfl

@[simp] theorem noted_random (e : Engine) (l : List Note) : (e.noted l).random = e.random := rfl

@[simp] theorem noted_nil (e : Engine) : e.noted [] = e := by
  simp only [noted, Array.append_empty]

/-- The fault of a cycle that is refused. -/
def faultHere (e : Engine) (cause : Cause) : Failure :=
  .fault ⟨cause, some e.machine.pc, some e.machine.word⟩

theorem get_eq (e : Engine) : (get : Cycle Engine) e = .ok e e := rfl

theorem pure_eq {α : Type} (a : α) (e : Engine) : (pure a : Cycle α) e = .ok a e := rfl

theorem change_eq (f : Machine → Machine) (e : Engine) :
    change f e = .ok () { e with machine := f e.machine } := rfl

theorem raise_eq {α : Type} (cause : Cause) (e : Engine) :
    (raise cause : Cycle α) e = .error (e.faultHere cause) e := rfl

theorem orDefect_ok {α : Type} (a : α) (e : Engine) : orDefect (.ok a) e = .ok a e := rfl

theorem randomByte_eq (e : Engine) :
    randomByte e = .ok e.random.next.1 { e with random := e.random.next.2 } := rfl

theorem note_eq (n : Note) (e : Engine) : note n e = .ok () (e.noted [n]) := by
  simp only [noted, ← Array.push_eq_append]
  rfl

theorem decodeHere_eq (e : Engine) :
    decodeHere e = match Instruction.ofWord? e.machine.word with
      | some ins => .ok ins e
      | none => .error (e.faultHere .noForm) e := by
  simp only [decodeHere, bind, EStateM.bind, get_eq, Instruction.decode_word]
  cases Instruction.ofWord? e.machine.word <;> rfl

theorem returnFromCall_eq (h : e.machine.Steady) :
    returnFromCall e = if e.machine.sp = 0 then .error (e.faultHere .stackUnderflow) e
      else .ok () { e with machine := e.machine.leave } := by
  by_cases hsp : e.machine.sp = 0
  · simp only [returnFromCall, bind, EStateM.bind, get_eq, if_pos hsp, raise_eq]
  · have hr := h.sp_range
    have hslot := slot_of_range (n := 16) (k := e.machine.sp - 1) (by omega) (by omega) (by omega)
      .noSlotToRead
    have htop : e.machine.topSlot = ⟨(e.machine.sp - 1).toNat, by omega⟩ :=
      Fin.ext (Nat.mod_eq_of_lt (by omega))
    simp only [returnFromCall, bind, EStateM.bind, get_eq, if_neg hsp, change_eq, hslot,
      orDefect_ok, Machine.leave, htop]

theorem call_eq (h : e.machine.Steady) (target : Nat) :
    call target e = if e.machine.sp = 16 then .error (e.faultHere .stackOverflow) e
      else .ok () { e with machine := e.machine.enter target } := by
  by_cases hsp : e.machine.sp = 16
  · simp only [call, bind, EStateM.bind, get_eq, if_pos hsp, raise_eq]
  · have hr := h.sp_range
    have hslot := slot_of_range (n := 16) (k := e.machine.sp) (by omega) (by omega) (by omega)
      .noSlotToWrite
    have hfree : e.machine.freeSlot = ⟨e.machine.sp.toNat, by omega⟩ :=
      Fin.ext (Nat.mod_eq_of_lt (by omega))
    have hpush : e.machine.assignStack e.machine.sp (Memory.wrap (e.machine.pc + 2)) =
        .ok { e.machine with
          stack := e.machine.stack.set e.machine.freeSlot (Memory.wrap (e.machine.pc + 2) : Int)
            e.machine.freeSlot.isLt } := by
      simp only [Machine.assignStack, hslot, hfree]
      rfl
    simp only [call, bind, EStateM.bind, get_eq, if_neg hsp, change_eq, hpush, orDefect_ok,
      Machine.enter]

theorem assignV_of_range {m : Machine} {k n : Int} (hk : 0 ≤ k ∧ k < 16) (hn : 0 ≤ n ∧ n < 0x100) :
    m.assignV k n = .ok (m.setV (Fin.ofNat 16 k.toNat) (UInt8.ofNat n.toNat)) := by
  have hslot := slot_of_range (n := 16) hk.1 (by omega) (by omega) .noRegister
  have hr : (Fin.ofNat 16 k.toNat) = ⟨k.toNat, by omega⟩ := Fin.ext (Nat.mod_eq_of_lt (by omega))
  simp only [Machine.assignV, hslot, byteOf_of_range hn.1 hn.2, hr]

theorem readDelay_eq (h : e.machine.Steady) (x : Fin 16) :
    readDelay x e = .ok () { e with
      machine := (e.machine.setV x (UInt8.ofNat e.machine.delay.toNat)).advance } := by
  have hv := assignV_of_range (m := e.machine) (k := x.val) (by omega) h.delay_range
  have hx : Fin.ofNat 16 (x.val : Int).toNat = x := Fin.ext (Nat.mod_eq_of_lt x.isLt)
  rw [hx] at hv
  simp only [readDelay, bind, EStateM.bind, get_eq, hv, orDefect_ok, change_eq]

theorem takeKey_eq (x : Fin 16) (e : Engine) :
    takeKey x e = match e.machine.keypad.first? with
      | some key => .ok () { e with machine := e.machine.receive x key }
      | none => .ok () ({ e with
          machine := { e.machine with awaiting := some (x.val : Int) } }.noted [.awaitingKey x]) := by
  simp only [takeKey, bind, EStateM.bind, get_eq]
  cases e.machine.keypad.first? with
  | some key => rfl
  | none => simp only [EStateM.bind, change_eq, note_eq]

theorem guardStore_eq (count : Nat) (e : Engine) :
    guardStore count e = match e.machine.firstProtected? count with
      | some target => .error (e.faultHere (.protectedWrite target)) e
      | none => .ok () e := by
  simp only [guardStore, bind, EStateM.bind, get_eq]
  cases e.machine.firstProtected? count <;> rfl

theorem guardedStore_eq (bytes : Machine → List UInt8) (count : Nat) (e : Engine)
    (hc : (bytes e.machine).length = count) :
    (guardStore count >>= fun _ => change fun m => (m.poke m.i (bytes m)).advance) e =
      match e.machine.guardedStore (bytes e.machine) with
      | .error cause => .error (e.faultHere cause) e
      | .ok m => .ok () { e with machine := m } := by
  simp only [bind, EStateM.bind, guardStore_eq, Machine.guardedStore, hc]
  cases e.machine.firstProtected? count <;> rfl

/-- Within the bounds the engine carries an instruction out as the machine says. -/
theorem perform_eq (h : e.machine.Steady) (ins : Instruction) :
    perform ins e = match e.machine.carryOut e.random ins with
      | .error cause => .error (e.faultHere cause) e
      | .ok (m, r) =>
        .ok () ({ e with machine := m, random := r }.noted (e.machine.waitRemark ins)) := by
  have hw (hf : ins.form ≠ .ldVxK) : e.machine.waitRemark ins = [] :=
    if_neg fun hk => hf hk.1
  have hv : (e.machine.v.toList.take (ins.x + 1)).length = ins.x + 1 := by
    simp only [List.length_take, Vector.length_toList]
    omega
  cases hf : ins.form
  case sys => simp only [perform, Machine.carryOut, hf, raise_eq]
  case ret =>
    simp only [perform, Machine.carryOut, hf, returnFromCall_eq h, hw (by simp [hf])]
    split <;> simp only [noted_nil]
  case call =>
    simp only [perform, Machine.carryOut, hf, call_eq h, hw (by simp [hf])]
    split <;> simp only [noted_nil]
  case rnd =>
    simp only [perform, Machine.carryOut, hf, hw (by simp [hf]), noted_nil, bind, EStateM.bind,
      randomByte_eq, change_eq]
  case ldVxDt =>
    simp only [perform, Machine.carryOut, hf, hw (by simp [hf]), noted_nil, readDelay_eq h]
  case ldVxK =>
    simp only [perform, Machine.carryOut, hf, takeKey_eq, Machine.waitRemark]
    cases e.machine.keypad.first? <;> simp [noted]
  case ldBVx =>
    simp only [perform, Machine.carryOut, hf, hw (by simp [hf])]
    rw [guardedStore_eq (fun m => Machine.decimalDigits m.v[ins.x]) 3 e rfl]
    cases e.machine.guardedStore (Machine.decimalDigits e.machine.v[ins.x]) <;>
      simp only [Except.map, noted_nil]
  case ldMemVx =>
    simp only [perform, Machine.carryOut, hf, hw (by simp [hf])]
    rw [guardedStore_eq (fun m => m.v.toList.take (ins.x + 1)) (ins.x + 1) e hv]
    cases e.machine.guardedStore (e.machine.v.toList.take (ins.x + 1)) <;>
      simp only [Except.map, noted_nil]
  all_goals
    simp only [perform, Machine.carryOut, hf, hw (by simp [hf]), noted_nil, change_eq]

theorem poll_eq {x : Int} (hx : 0 ≤ x ∧ x < 16) (e : Engine) :
    poll x e = match e.machine.keypad.first?, Instruction.ofWord? e.machine.word with
      | none, _ => .ok none e
      | some _, none => .error (e.faultHere .noForm) e
      | some key, some ins =>
        .ok (some ins) ({ e with
          machine := { e.machine with awaiting := none }.receive (Fin.ofNat 16 x.toNat) key }.noted
            [.keyTaken x key]) := by
  simp only [poll, bind, EStateM.bind, get_eq]
  cases e.machine.keypad.first? with
  | none => rfl
  | some key =>
    have hv := assignV_of_range (m := e.machine) (n := key.val) hx (by omega)
    simp only [EStateM.bind, decodeHere_eq]
    cases Instruction.ofWord? e.machine.word with
    | none => rfl
    | some ins =>
      simp only [hv, orDefect_ok, change_eq, note_eq, pure_eq]
      rfl

/-- Within the bounds a cycle is what the machine says it is. -/
theorem step_eq (h : e.machine.Steady) :
    step e = match e.machine.cycle e.random with
      | .error cause => .error (e.faultHere cause) (e.noted (e.machine.remarks e.trace))
      | .ok (a, m, r) =>
        .ok a ({ e with machine := m, random := r }.noted (e.machine.remarks e.trace)) := by
  simp only [step, bind, EStateM.bind, get_eq, Machine.cycle, Machine.remarks]
  cases ha : e.machine.awaiting with
  | some x =>
    simp only [poll_eq (h.awaiting_range x ha)]
    cases e.machine.keypad.first? with
    | none => simp only [noted_nil]
    | some key => cases Instruction.ofWord? e.machine.word <;> simp only [noted_nil]
  | none =>
    simp only [EStateM.bind, decodeHere_eq]
    cases Instruction.ofWord? e.machine.word with
    | none => simp only [noted_nil]
    | some ins =>
      -- the trace is noted before the instruction is carried out, on the same machine
      have hp (l : List Note) := perform_eq (e := e.noted l) h ins
      simp only [get_eq, noted_machine, noted_random] at hp ⊢
      by_cases ht : (e.trace && ins.form.executable) = true
      · rw [if_pos ht, if_pos ht]
        simp only [EStateM.bind, note_eq, hp]
        cases hc : e.machine.carryOut e.random ins with
        | error cause => simp only [Machine.waitRemark_of_error hc, List.append_nil]; rfl
        | ok c => simp only [get_eq, pure_eq, noted, Array.append_assoc, List.append_toArray]
      · rw [if_neg ht, if_neg ht]
        have hp := hp []
        simp only [noted_nil] at hp
        simp only [EStateM.bind, hp, List.nil_append]
        cases hc : e.machine.carryOut e.random ins with
        | error cause => simp only [Machine.waitRemark_of_error hc, noted_nil]
        | ok c => simp only [get_eq, pure_eq, noted]

end Engine
end Chip8
