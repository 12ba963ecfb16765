import Chip8.Proofs.Drive

/-!
# Chip8.Proofs.Footprint

What a cycle leaves alone. An instruction can change few parts of a machine, and its form tells which.
`Effect` settles memory, stack, keys and waits; the others are looked at here. An instruction that the
engine carries out itself changes no more of them than `Machine.obey`, which passes it over
(`rest_of_carryOut`).

* `Instruction.draws`    : the instruction switches pixels over or off.
* `Instruction.mayWrite` : the registers that an instruction may write.
* `Machine.Frame`        : what a completed cycle leaves alone, part by part.

`frame_of_step`: within the bounds every cycle that completes keeps to the frame of the instruction at the
program counter, and a cycle that polls the keys to that of the Fx0A which waits.
-/

namespace Chip8

namespace Instruction

/-- Clears the screen or draws a row at least. -/
def draws (ins : Instruction) : Bool :=
  match ins.form with
  | .cls => true
  | .drw => ins.n != 0
  | _ => false

def mayWrite (ins : Instruction) (k : Fin 16) : Bool :=
  match ins.form with
  | .ldVxMem => k ≤ ins.x
  | .drw => k = 15
  | .addReg | .sub | .shr | .subn | .shl => k = ins.x || k = 15
  | .ldByte | .addByte | .ldReg | .or | .and | .xor | .rnd | .ldVxDt | .ldVxK => k = ins.x
  | _ => false

end Instruction

namespace Machine

variable {m m' : Machine} {r r' : RandomSource} {ins : Instruction} {k : Fin 16}

/-- What no return, call, store or key wait touches. -/
def rest (m : Machine) : Screen × Bool × Int × Int × Int :=
  (m.screen, m.drawn, m.delay, m.sound, m.i)

/-! ## Registers -/

@[simp] theorem jump_v (m : Machine) (a : Int) : (m.jump a).v = m.v := rfl

@[simp] theorem advance_v (m : Machine) : m.advance.v = m.v := rfl

@[simp] theorem skipIf_v (m : Machine) (c : Bool) : (m.skipIf c).v = m.v := rfl

theorem get_setV (m : Machine) (k : Fin 16) (b : UInt8) : (m.setV k b).v.get k = b := by
  show (m.v.set k b k.isLt)[k] = b
  simp only [getElem_val, Vector.getElem_set_self]

theorem v_setV {x : Fin 16} (b : UInt8) (h : k ≠ x) : (m.setV x b).v[k] = m.v[k] := by
  simp only [setV, getElem_val]
  exact Vector.getElem_set_ne _ _ (by omega)

theorem v_setFlagged {x : Fin 16} (b : UInt8) (flag : Bool) (h : k ≠ x) (hf : k ≠ 15) :
    (m.setFlagged x b flag).v[k] = m.v[k] := by
  rw [setFlagged, v_setV _ hf, v_setV _ h]

theorem v_drawSprite (x y : Fin 16) (n : Nat) (h : k ≠ 15) :
    (m.drawSprite x y n).v[k] = m.v[k] := by
  simp only [drawSprite_eq, v_setV _ h]

theorem v_loadRegisters {x : Fin 16} (h : ¬k ≤ x) : (m.loadRegisters x).v[k] = m.v[k] := by
  simp only [loadRegisters, getElem_val, Vector.getElem_ofFn, if_neg h]

/-! ## Index and memory -/

theorem advance_memory (m : Machine) : m.advance.memory = m.memory := rfl

theorem advance_i (m : Machine) : m.advance.i = m.i := rfl

theorem poke_i (m : Machine) (a : Int) (bytes : List UInt8) : (m.poke a bytes).i = m.i := rfl

theorem poke_v (m : Machine) (a : Int) (bytes : List UInt8) : (m.poke a bytes).v = m.v := rfl

theorem loadRegisters_i (m : Machine) (x : Fin 16) : (m.loadRegisters x).i = m.i := by
  simp only [loadRegisters]

theorem loadRegisters_memory (m : Machine) (x : Fin 16) : (m.loadRegisters x).memory = m.memory := by
  simp only [loadRegisters]

/-! ## Instructions that cannot fail -/

theorem obey_v (h : ins.mayWrite k = false) : (m.obey ins).v[k] = m.v[k] := by
  cases hf : ins.form
  all_goals
    simp only [Instruction.mayWrite, hf] at h
    simp only [obey, hf, advance_v, skipIf_v, jump_v]
  case ldVxMem => exact v_loadRegisters (of_decide_eq_false h)
  case drw => exact v_drawSprite _ _ _ (of_decide_eq_false h)
  case addReg | sub | shr | subn | shl =>
    simp only [Bool.or_eq_false_iff, decide_eq_false_iff_not] at h
    exact v_setFlagged _ _ h.1 h.2
  case ldByte | addByte | ldReg | or | and | xor => exact v_setV _ (of_decide_eq_false h)

theorem obey_i (h : ins.form ∉ [.ldI, .addIVx, .ldFVx]) : (m.obey ins).i = m.i := by
  cases hf : ins.form
  case ldI | addIVx | ldFVx => simp [hf] at h
  all_goals simp only [obey, hf, advance, jump, skipIf, setFlagged, setV, drawSprite_eq, loadRegisters]

theorem obey_delay (h : ins.form ≠ .ldDtVx) : (m.obey ins).delay = m.delay := by
  cases hf : ins.form
  case ldDtVx => exact absurd hf h
  all_goals simp only [obey, hf, advance, jump, skipIf, setFlagged, setV, drawSprite_eq, loadRegisters]

theorem obey_sound (h : ins.form ≠ .ldStVx) : (m.obey ins).sound = m.sound := by
  cases hf : ins.form
  case ldStVx => exact absurd hf h
  all_goals simp only [obey, hf, advance, jump, skipIf, setFlagged, setV, drawSprite_eq, loadRegisters]

theorem obey_drawn (m : Machine) (ins : Instruction) :
    (m.obey ins).drawn = (m.drawn || ins.draws) := by
  cases hf : ins.form
  all_goals
    simp only [Instruction.draws, hf, Bool.or_true, Bool.or_false]
    simp only [obey, hf, advance, jump, skipIf, setFlagged, setV, drawSprite_eq, loadRegisters]

/-- A sprite without rows switches no pixel. -/
theorem obey_screen (h : ins.draws = false) : (m.obey ins).screen = m.screen := by
  cases hf : ins.form
  all_goals
    simp only [Instruction.draws, hf] at h
    simp only [obey, hf, advance, jump, skipIf, setFlagged, setV, drawSprite_eq, loadRegisters]
  case cls => cases h
  case drw =>
    have hn : ins.n = 0 := by simpa using h
    rw [hn]
    rfl

/-! ## Instructions -/

/-- An instruction that completes is obeyed, or it is one that `obey` passes over and that the engine
carries out without touching the rest. -/
theorem rest_of_carryOut (hc : m.carryOut r ins = .ok (m', r')) :
    m'.rest = (m.obey ins).rest ∧ (∀ k, ins.mayWrite k = false → m'.v[k] = m.v[k]) ∧
      r' = if ins.form = .rnd then r.next.2 else r := by
  have hwrite {b : UInt8} (hx : ∀ k, ins.mayWrite k = decide (k = ins.x)) (k : Fin 16)
      (h : ins.mayWrite k = false) : ((m.setV ins.x b).advance).v[k] = m.v[k] := by
    rw [hx] at h
    exact v_setV b (of_decide_eq_false h)
  have hstore {bytes : List UInt8} (hs : (m.guardedStore bytes).map (·, r) = .ok (m', r')) :
      m'.rest = m.rest ∧ m'.v = m.v ∧ r' = r := by
    simp only [guardedStore] at hs
    split at hs <;> cases hs
    exact ⟨rfl, rfl, rfl⟩
  cases hf : ins.form
  case sys =>
    simp only [carryOut, hf] at hc
    cases hc
  case ret | call =>
    simp only [carryOut, hf] at hc
    split at hc <;> cases hc
    simp only [obey, hf]
    exact ⟨rfl, fun _ _ => rfl, rfl⟩
  case ldVxK =>
    simp only [carryOut, hf] at hc
    simp only [obey, hf]
    split at hc
    · cases hc
      exact ⟨rfl, hwrite (fun k => by simp only [Instruction.mayWrite, hf]), rfl⟩
    · cases hc
      exact ⟨rfl, fun _ _ => rfl, rfl⟩
  case rnd | ldVxDt =>
    simp only [carryOut, hf] at hc
    simp only [obey, hf]
    cases hc
    exact ⟨rfl, hwrite (fun k => by simp only [Instruction.mayWrite, hf]), rfl⟩
  case ldBVx | ldMemVx =>
    simp only [carryOut, hf] at hc
    simp only [obey, hf]
    obtain ⟨hrest, hv, hr⟩ := hstore hc
    exact ⟨hrest, fun k _ => by rw [hv], hr⟩
  all_goals
    simp only [carryOut, hf] at hc
    cases hc
    exact ⟨rfl, fun _ h => obey_v h, rfl⟩

/-- What a completed cycle leaves alone, `ins` being the instruction at the program counter. -/
structure Frame (m : Machine) (r : RandomSource) (ins : Instruction) (m' : Machine)
    (r' : RandomSource) : Prop where
  memory : ins.form ∉ [.ldBVx, .ldMemVx] → m'.memory = m.memory
  screen : ins.draws = false → m'.screen = m.screen
  /-- The flag is raised by every instruction that draws, and lowered by none. -/
  drawn : m'.drawn = (m.drawn || ins.draws)
  stack : ins.form ≠ .call → m'.stack = m.stack
  sp : ins.form ∉ [.call, .ret] → m'.sp = m.sp
  delay : ins.form ≠ .ldDtVx → m'.delay = m.delay
  sound : ins.form ≠ .ldStVx → m'.sound = m.sound
  i : ins.form ∉ [.ldI, .addIVx, .ldFVx] → m'.i = m.i
  keypad : m'.keypad = m.keypad
  /-- A key wait begins or ends, or it goes on. -/
  awaiting : m'.awaiting = m.awaiting ∨ ins.form = .ldVxK ∧
    (m.awaiting = none ∧ m'.awaiting = some (ins.x.val : Int) ∨
      m.awaiting = some (ins.x.val : Int) ∧ m'.awaiting = none)
  /-- One random byte is taken or none. -/
  random : r' = if ins.form = .rnd then r.next.2 else r
  v : ∀ k, ins.mayWrite k = false → m'.v[k] = m.v[k]

namespace Does

theorem memory (hd : m.Does r ins m' r') (h : ins.form ∉ [.ldBVx, .ldMemVx]) :
    m'.memory = m.memory := by
  cases hd with
  | stores hb =>
    simp only [stored?] at hb
    split at hb <;> simp_all
  | keeps _ _ _ hk => exact congrArg (·.1) hk
  | returns | calls | waits => rfl

theorem stack (hd : m.Does r ins m' r') (h : ins.form ≠ .call) : m'.stack = m.stack := by
  cases hd with
  | calls hf => exact absurd hf h
  | keeps _ _ _ hk => exact congrArg (·.2.1) hk
  | returns | stores | waits => rfl

theorem sp (hd : m.Does r ins m' r') (h : ins.form ∉ [.call, .ret]) : m'.sp = m.sp := by
  cases hd with
  | returns hf | calls hf => simp [hf] at h
  | keeps _ _ _ hk => exact congrArg (·.2.2.1) hk
  | stores | waits => rfl

theorem keypad (hd : m.Does r ins m' r') : m'.keypad = m.keypad := by
  cases hd with
  | keeps _ _ _ hk => exact congrArg (·.2.2.2.1) hk
  | returns | calls | stores | waits => rfl

theorem awaiting (hd : m.Does r ins m' r') :
    m'.awaiting = m.awaiting ∨ ins.form = .ldVxK ∧ m'.awaiting = some (ins.x.val : Int) := by
  cases hd with
  | waits hf => exact .inr ⟨hf, rfl⟩
  | keeps _ _ _ hk => exact .inl (congrArg (·.2.2.2.2) hk)
  | returns | calls | stores => exact .inl rfl

end Does

theorem frame_of_carryOut (ha : m.awaiting = none) (hc : m.carryOut r ins = .ok (m', r')) :
    m.Frame r ins m' r' := by
  have hd := does_of_carryOut hc
  obtain ⟨hrest, hv, hr⟩ := rest_of_carryOut hc
  simp only [rest, Prod.mk.injEq] at hrest
  obtain ⟨hscreen, hdrawn, hdelay, hsound, hi⟩ := hrest
  exact {
    memory := hd.memory
    screen := fun h => by rw [hscreen, obey_screen h]
    drawn := by rw [hdrawn, obey_drawn]
    stack := hd.stack
    sp := hd.sp
    delay := fun h => by rw [hdelay, obey_delay h]
    sound := fun h => by rw [hsound, obey_sound h]
    i := fun h => by rw [hi, obey_i h]
    keypad := hd.keypad
    awaiting := hd.awaiting.imp_right fun ⟨hf, hx⟩ => ⟨hf, .inl ⟨ha, hx⟩⟩
    random := hr
    v := hv }

/-- A poll that finds a key does what Fx0A would do, and ends the wait. -/
theorem frame_of_take {key : Fin 16} (hf : ins.form = .ldVxK)
    (ha : m.awaiting = some (ins.x.val : Int)) :
    m.Frame r ins ({ m with awaiting := none }.receive ins.x key) r where
  memory _ := rfl
  screen _ := rfl
  drawn := by simp only [Instruction.draws, hf, Bool.or_false]; rfl
  stack _ := rfl
  sp _ := rfl
  delay _ := rfl
  sound _ := rfl
  i _ := rfl
  keypad := rfl
  awaiting := .inr ⟨hf, .inr ⟨ha, rfl⟩⟩
  random := by simp only [hf]; rfl
  v k h := by
    simp only [Instruction.mayWrite, hf] at h
    exact v_setV _ (of_decide_eq_false h)

theorem frame_of_wait (hf : ins.form = .ldVxK) : m.Frame r ins m r where
  memory _ := rfl
  screen _ := rfl
  drawn := by simp only [Instruction.draws, hf, Bool.or_false]
  stack _ := rfl
  sp _ := rfl
  delay _ := rfl
  sound _ := rfl
  i _ := rfl
  keypad := rfl
  awaiting := .inl rfl
  random := by simp only [hf]; rfl
  v _ _ := rfl

theorem frame_of_turns (h : m.AwaitsHere) {a : Option Instruction} (ht : m.Turns r a m' r') :
    ∃ ins, Instruction.ofWord? m.word = some ins ∧
      a = (if m'.isAwaiting then none else some ins) ∧ m.Frame r ins m' r' := by
  cases ht with
  | waitsOn ha hk =>
    obtain ⟨ins, hd, hf, -⟩ := h _ ha
    refine ⟨ins, hd, ?_, frame_of_wait hf⟩
    simp only [isAwaiting, ha, Option.isSome_some, if_true]
  | @takes x key ins ha hk hd =>
    obtain ⟨ins', hd', hf, rfl⟩ := h _ ha
    rw [hd] at hd'
    cases hd'
    have hx : Fin.ofNat 16 (ins.x.val : Int).toNat = ins.x := Fin.ext (Nat.mod_eq_of_lt ins.x.isLt)
    rw [hx]
    exact ⟨ins, hd, rfl, frame_of_take hf ha⟩
  | carries ha hd hco => exact ⟨_, hd, rfl, frame_of_carryOut ha hco⟩

end Machine

namespace Engine

variable {e e' : Engine}

/-- **The frame law.** A cycle that completes changes no more than the instruction at the program counter
may change; if it does not wait for a key then it answers with that instruction. -/
theorem frame_of_step (h : e.machine.WellFormed) (ha : e.machine.AwaitsHere)
    {a : Option Instruction} (hs : step e = .ok a e') :
    ∃ ins, Instruction.ofWord? e.machine.word = some ins ∧
      a = (if e'.machine.isAwaiting then none else some ins) ∧
      e.machine.Frame e.random ins e'.machine e'.random :=
  Machine.frame_of_turns ha (turns_of_step h hs)

/-- A random byte of which no bit is wanted. -/
def blankRandom : Engine where
  machine := { Machine.fresh with
    memory := Memory.fresh.store Memory.programStart [0xC3, 0x00] }
  random := .ofBytes #[0x5A, 0xA5]
  trace := false
  notes := #[]

theorem blankRandom_takes_one :
    blankRandom.machine.WellFormed ∧ blankRandom.machine.AwaitsHere ∧
      ∃ a e', step blankRandom = .ok a e' ∧ e'.random = .cycle #[0x5A, 0xA5] 1 ∧
        e'.machine.memory = blankRandom.machine.memory ∧
        ∀ k : Fin 16, k ≠ 3 → e'.machine.v[k] = blankRandom.machine.v[k] := by
  have hw : blankRandom.machine.WellFormed := Machine.wellFormed_fresh.setMemory _
  have ha : blankRandom.machine.AwaitsHere := fun x hx => by cases hx
  have hd : Instruction.ofWord? blankRandom.machine.word = some ⟨.rnd, 0xC300⟩ := by decide +kernel
  have hdone : blankRandom.completes = true := by decide +kernel
  refine ⟨hw, ha, ?_⟩
  cases hs : step blankRandom with
  | ok a e' =>
    obtain ⟨ins, hd', -, hframe⟩ := frame_of_step hw ha hs
    rw [hd] at hd'
    cases hd'
    refine ⟨a, e', rfl, hframe.random, hframe.memory (by decide), fun k hk => hframe.v k ?_⟩
    exact decide_eq_false hk
  | error f e' =>
    rw [completes_of_error hs] at hdone
    cases hdone

end Engine
end Chip8
