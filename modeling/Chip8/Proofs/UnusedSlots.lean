import Chip8.Proofs.Drive

/-!
# Chip8.Proofs.UnusedSlots

Stack slots that are not in use are dead. A return reads a slot in use, a call fills the first one that
is not, and nothing else looks at the stack; so two engines that differ in unused slots only
(`Engine.SameInUse`) stay so under any inputs.
-/

namespace Chip8
namespace Machine

variable {m m' : Machine} {r r' : RandomSource} {stack : Vector Int 16} {ins : Instruction}
  {cause : Cause}

def withStack (m : Machine) (stack : Vector Int 16) : Machine :=
  { m with stack }

/-- A stack that has the slots in use as they are. -/
def UsesOf (m : Machine) (stack : Vector Int 16) : Prop :=
  ∀ k : Fin 16, (k : Int) < m.sp → stack[k] = m.stack[k]

theorem obey_withStack (m : Machine) (ins : Instruction) (stack : Vector Int 16) :
    (m.withStack stack).obey ins = (m.obey ins).withStack stack := by
  cases hf : ins.form <;> simp only [obey, hf] <;> rfl

/-- Only returns and calls look at the stack. -/
theorem unseen_withStack (m : Machine) (stack : Vector Int 16) (hret : ins.form ≠ .ret)
    (hcall : ins.form ≠ .call) : m.Unseen ins (·.withStack stack) where
  v := rfl
  sp := rfl
  keypad := rfl
  delay _ := rfl
  firstProtected? _ := rfl
  leave hf := absurd hf hret
  enter hf := absurd hf hcall
  setV _ _ := rfl
  wait _ := rfl
  store _ := rfl
  obey := obey_withStack m ins stack

theorem UsesOf.congr (hu : m.UsesOf stack) (hstack : m'.stack = m.stack) (hsp : m'.sp = m.sp) :
    m'.UsesOf stack := by
  intro k hk
  rw [hstack]
  exact hu k (hsp ▸ hk)

theorem UsesOf.leave (hu : m.UsesOf stack) : m.leave.UsesOf stack := by
  intro k hk
  have hlt : (k : Int) < m.sp - 1 := hk
  exact hu k (by omega)

theorem UsesOf.enter (hu : m.UsesOf stack) (h : m.Steady) (hsp : m.sp ≠ 16) (target : Int) :
    (m.enter target).UsesOf
      (stack.set m.freeSlot (Memory.wrap (m.pc + 2) : Int) m.freeSlot.isLt) := by
  intro k hk
  have hr := h.sp_range
  have hlt : (k : Int) < m.sp + 1 := hk
  have hslot : (m.freeSlot : Nat) = m.sp.toNat := Nat.mod_eq_of_lt (by omega)
  simp only [Machine.enter, jump, getElem_val, Vector.getElem_set]
  split
  · rfl
  · exact hu k (by omega)

theorem leave_withStack (hu : m.UsesOf stack) (h : m.Steady) (hsp : m.sp ≠ 0) :
    (m.withStack stack).leave = m.leave.withStack stack := by
  have hr := h.sp_range
  have hslot : (m.topSlot : Nat) = (m.sp - 1).toNat := Nat.mod_eq_of_lt (by omega)
  have htop : stack[m.topSlot] = m.stack[m.topSlot] := hu m.topSlot (by omega)
  have hleave : (m.withStack stack).leave =
      { m.withStack stack with sp := m.sp - 1 }.jump stack[m.topSlot] := rfl
  rw [hleave, htop]
  rfl

theorem stack_of_does (hret : ins.form ≠ .ret) (hcall : ins.form ≠ .call)
    (hd : m.Does r ins m' r') : m'.stack = m.stack ∧ m'.sp = m.sp := by
  cases hd with
  | returns hf => exact absurd hf hret
  | calls hf => exact absurd hf hcall
  | stores => exact ⟨rfl, rfl⟩
  | waits => exact ⟨rfl, rfl⟩
  | keeps _ _ _ hk => exact ⟨congrArg (·.2.1) hk, congrArg (·.2.2.1) hk⟩

theorem carryOut_ok_withStack (h : m.Steady) (hu : m.UsesOf stack)
    (hc : m.carryOut r ins = .ok (m', r')) :
    ∃ stack', (m.withStack stack).carryOut r ins = .ok (m'.withStack stack', r') ∧
      m'.UsesOf stack' := by
  by_cases hret : ins.form = .ret
  · simp only [carryOut, hret] at hc ⊢
    split at hc
    · cases hc
    · rename_i hsp
      cases hc
      refine ⟨stack, ?_, hu.leave⟩
      rw [← leave_withStack hu h hsp]
      exact if_neg hsp
  · by_cases hcall : ins.form = .call
    · simp only [carryOut, hcall] at hc ⊢
      split at hc
      · cases hc
      · rename_i hsp
        cases hc
        exact ⟨_, if_neg hsp, hu.enter h hsp _⟩
    · obtain ⟨hstack, hsp⟩ := stack_of_does hret hcall (does_of_carryOut hc)
      refine ⟨stack, ?_, hu.congr hstack hsp⟩
      rw [carryOut_of_unseen (unseen_withStack m stack hret hcall), hc]
      rfl

theorem Refuses.withStack (hr : m.Refuses ins cause) : (m.withStack stack).Refuses ins cause := by
  cases hr with
  | machineCode hf => exact .machineCode hf
  | underflow hf hsp => exact .underflow hf hsp
  | overflow hf hsp => exact .overflow hf hsp
  | protectedWrite hb hp => exact .protectedWrite hb hp

theorem Fails.withStack (hf : m.Fails cause) : (m.withStack stack).Fails cause := by
  cases hf with
  | undecoded hw hd => exact .undecoded hw hd
  | refused ha hd hr => exact .refused ha hd hr.withStack

theorem cycle_ok_withStack (h : m.Steady) (hu : m.UsesOf stack) {a : Option Instruction}
    (hc : m.cycle r = .ok (a, m', r')) :
    ∃ stack', (m.withStack stack).cycle r = .ok (a, m'.withStack stack', r') ∧
      m'.UsesOf stack' := by
  have hword : (m.withStack stack).word = m.word := rfl
  have hkeys : (m.withStack stack).keypad = m.keypad := rfl
  have hwait : (m.withStack stack).awaiting = m.awaiting := rfl
  cases turns_of_cycle hc with
  | waitsOn ha hk =>
    refine ⟨stack, ?_, hu⟩
    simp only [cycle, hwait, hkeys, ha, hk]
  | takes ha hk hd =>
    refine ⟨stack, ?_, hu⟩
    simp only [cycle, hwait, hkeys, hword, ha, hk, hd]
    rfl
  | carries ha hd hco =>
    obtain ⟨stack', hco', hu'⟩ := carryOut_ok_withStack h hu hco
    refine ⟨stack', ?_, hu'⟩
    simp only [cycle, hwait, hword, ha, hd, hco']
    rfl

end Machine

namespace Engine

variable {f g : Engine}

def SameInUse (f g : Engine) : Prop :=
  ∃ stack, f.machine.UsesOf stack ∧ g = { f with machine := f.machine.withStack stack }

theorem sameInUse_next (h : f.machine.WellFormed) (hs : f.SameInUse g) :
    f.next.SameInUse g.next := by
  obtain ⟨stack, hu, rfl⟩ := hs
  have hsteady : (f.machine.withStack stack).Steady := { h.steady with }
  cases hc : f.machine.cycle f.random with
  | error cause =>
    have hc' : (f.machine.withStack stack).cycle f.random = .error cause :=
      Machine.cycle_error_iff.mpr (Machine.cycle_error_iff.mp hc).withStack
    rw [next_of_error (by rw [step_eq h.steady, hc]), next_of_error (by rw [step_eq hsteady, hc'])]
    exact ⟨stack, hu, rfl⟩
  | ok p =>
    obtain ⟨a, m, r⟩ := p
    obtain ⟨stack', hc', hu'⟩ := Machine.cycle_ok_withStack h.steady hu hc
    rw [next_of_ok (by rw [step_eq h.steady, hc]), next_of_ok (by rw [step_eq hsteady, hc'])]
    exact ⟨stack', hu', rfl⟩

theorem sameInUse_accept (h : f.machine.WellFormed) (hs : f.SameInUse g) (i : Input) :
    (f.accept i).SameInUse (g.accept i) := by
  cases i with
  | cycle => exact sameInUse_next h hs
  | tick =>
    obtain ⟨stack, hu, rfl⟩ := hs
    exact ⟨stack, hu, rfl⟩
  | holdKey key held =>
    obtain ⟨stack, hu, rfl⟩ := hs
    simp only [accept, Machine.holdKey]
    cases key.resolve with
    | ok k => exact ⟨stack, hu, rfl⟩
    | error error => exact ⟨stack, hu, rfl⟩
  | releaseAll =>
    obtain ⟨stack, hu, rfl⟩ := hs
    exact ⟨stack, hu, rfl⟩

theorem sameInUse_drive (h : f.machine.WellFormed) (hs : f.SameInUse g) (inputs : List Input) :
    (f.drive inputs).SameInUse (g.drive inputs) := by
  induction inputs generalizing f g with
  | nil => exact hs
  | cons i inputs ih => exact ih (wellFormed_accept h i) (sameInUse_accept h hs i)

end Engine
end Chip8
