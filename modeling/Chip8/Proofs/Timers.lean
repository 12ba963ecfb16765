import Chip8.Proofs.Core

/-!
# Chip8.Proofs.Timers

Timers against cycles. Only Fx07, Fx15 and Fx18 look at a timer or set one; every other cycle does the same
whatever the timers are, and leaves them as they are (`Machine.cycle_withTimers`).

* `Engine.Interleaving` : so many cycles and so many ticks, in any order.
* `Engine.answers`      : what the cycles among some inputs answer, or how they fail.
* `Engine.timerFree`    : none of these cycles carries out Fx07, Fx15 or Fx18.

`interleavings_agree`: within the bounds all interleavings of the same cycles and ticks are timer free, or
none is; and if they are, then they answer alike and come to one machine.
-/

namespace Chip8

def Form.usesTimers : Form → Bool
  | .ldVxDt | .ldDtVx | .ldStVx => true
  | _ => false

namespace Machine

variable {m : Machine} {r : RandomSource} {ins : Instruction} {delay sound : Int}

def withTimers (m : Machine) (delay sound : Int) : Machine :=
  { m with delay, sound }

/-- The next cycle carries out an instruction that uses the timers; one that polls the keys carries out
none. -/
def usesTimers (m : Machine) : Bool :=
  m.awaiting.isNone && (Instruction.ofWord? m.word).any fun ins => ins.form.usesTimers

/-! ## Ticks -/

theorem countDown_of_nonneg {t : Int} (h : 0 ≤ t) (k : Nat) :
    0 ≤ countDown t ∧ max 0 (countDown t - k) = max 0 (t - (k + 1 : Nat)) := by
  simp only [countDown]
  split <;> omega

theorem tick_eq (m : Machine) :
    m.tick = m.withTimers (countDown m.delay) (countDown m.sound) := rfl

/-! ## Cycles -/

theorem obey_withTimers (h : ins.form.usesTimers = false) :
    (m.withTimers delay sound).obey ins = (m.obey ins).withTimers delay sound := by
  cases hf : ins.form
  case ldDtVx | ldStVx =>
    rw [hf] at h
    cases h
  all_goals simp only [obey, hf] <;> rfl

theorem unseen_withTimers (h : ins.form.usesTimers = false) :
    m.Unseen ins (·.withTimers delay sound) where
  v := rfl
  sp := rfl
  keypad := rfl
  delay hf := by
    rw [hf] at h
    cases h
  firstProtected? _ := rfl
  leave _ _ := rfl
  enter _ _ := rfl
  setV _ _ := rfl
  wait _ := rfl
  store _ := rfl
  obey := obey_withTimers h

/-- **A cycle that does not use the timers does not interfere with them**: it answers or is refused alike
whatever they are, and hands them on. -/
theorem cycle_withTimers (h : m.usesTimers = false) (delay sound : Int) :
    (m.withTimers delay sound).cycle r =
      (m.cycle r).map fun p => (p.1, p.2.1.withTimers delay sound, p.2.2) := by
  have hwait : (m.withTimers delay sound).awaiting = m.awaiting := rfl
  have hword : (m.withTimers delay sound).word = m.word := rfl
  have hkeys : (m.withTimers delay sound).keypad = m.keypad := rfl
  simp only [cycle, hwait, hword, hkeys]
  cases ha : m.awaiting with
  | some x =>
    dsimp only
    cases m.keypad.first? with
    | none => rfl
    | some key => cases Instruction.ofWord? m.word <;> rfl
  | none =>
    cases hd : Instruction.ofWord? m.word with
    | none => rfl
    | some ins =>
      have hf : ins.form.usesTimers = false := by
        simpa only [usesTimers, ha, hd, Option.isNone_none, Option.any_some, Bool.true_and] using h
      simp only [carryOut_of_unseen (unseen_withTimers hf)]
      cases m.carryOut r ins <;> rfl

end Machine

namespace Engine

variable {e f : Engine} {n k : Nat} {inputs inputs' : List Input}

inductive Interleaving : (n k : Nat) → List Input → Prop where
  | nil : Interleaving 0 0 []
  | cycle {n k : Nat} {inputs : List Input} :
      Interleaving n k inputs → Interleaving (n + 1) k (.cycle :: inputs)
  | tick {n k : Nat} {inputs : List Input} :
      Interleaving n k inputs → Interleaving n (k + 1) (.tick :: inputs)

def answer (e : Engine) : Except Failure (Option Instruction) :=
  match step e with
  | .ok a _ => .ok a
  | .error x _ => .error x

def answers (e : Engine) : List Input → List (Except Failure (Option Instruction))
  | [] => []
  | .cycle :: inputs => e.answer :: e.next.answers inputs
  | i :: inputs => (e.accept i).answers inputs

def timerFree (e : Engine) : List Input → Bool
  | [] => true
  | .cycle :: inputs => !e.machine.usesTimers && e.next.timerFree inputs
  | i :: inputs => (e.accept i).timerFree inputs

/-- The same but for the timers and what is noted down. -/
def SameButTimers (e f : Engine) : Prop :=
  f.machine = e.machine.withTimers f.machine.delay f.machine.sound ∧ f.random = e.random

theorem sameButTimers_self (e : Engine) : e.SameButTimers e := ⟨rfl, rfl⟩

theorem sameButTimers_tick (hs : e.SameButTimers f) : e.SameButTimers (f.accept .tick) := by
  refine ⟨?_, hs.2⟩
  have hf : (f.accept .tick).machine = f.machine.tick := rfl
  rw [hf, Machine.tick_eq, hs.1]
  rfl

theorem usesTimers_congr (hs : e.SameButTimers f) :
    f.machine.usesTimers = e.machine.usesTimers := by
  rw [hs.1]
  rfl

theorem answer_and_core (h : e.machine.WellFormed) :
    e.answer = (match e.machine.cycle e.random with
      | .error cause => .error (e.faultHere cause)
      | .ok (a, _, _) => .ok a) ∧
    e.next.core = match e.machine.cycle e.random with
      | .error _ => e.core
      | .ok (_, m, r) => (m, r) := by
  simp only [answer, next, step_eq h.steady]
  cases e.machine.cycle e.random <;> exact ⟨rfl, rfl⟩

/-- Where one machine does what the other does up to a change of what it leaves, the engines answer alike,
and they leave what they leave up to that change; a cycle that fails leaves both as they were. -/
theorem next_of_mapped (change : Machine → Machine) (he : e.machine.WellFormed)
    (hf : f.machine.WellFormed) (hrandom : f.random = e.random)
    (hfault : ∀ cause, f.faultHere cause = e.faultHere cause)
    (hcycle : f.machine.cycle e.random =
      (e.machine.cycle e.random).map fun p => (p.1, change p.2.1, p.2.2)) :
    f.answer = e.answer ∧
      (e.next.core = e.core ∧ f.next.core = f.core ∨
        (∃ a, e.machine.cycle e.random = .ok (a, e.next.core)) ∧
          f.next.core = (change e.next.machine, e.next.random)) := by
  obtain ⟨hae, hce⟩ := answer_and_core he
  obtain ⟨haf, hcf⟩ := answer_and_core hf
  rw [hrandom, hcycle] at haf hcf
  cases hc : e.machine.cycle e.random with
  | error cause =>
    simp only [hc, Except.map] at hae hce haf hcf
    exact ⟨by rw [haf, hae, hfault], .inl ⟨hce, hcf⟩⟩
  | ok p =>
    obtain ⟨a, m, r⟩ := p
    simp only [hc, Except.map] at hae hce haf hcf
    obtain ⟨hm, hr⟩ := Prod.mk.inj hce
    refine ⟨by rw [haf, hae], .inr ⟨⟨a, by rw [hce]⟩, ?_⟩⟩
    rw [hcf, hm, hr]

theorem sameButTimers_next (he : e.machine.WellFormed) (hf : f.machine.WellFormed)
    (hs : e.SameButTimers f) (hu : e.machine.usesTimers = false) :
    f.answer = e.answer ∧ e.next.SameButTimers f.next ∧
      f.next.machine.delay = f.machine.delay ∧ f.next.machine.sound = f.machine.sound := by
  have hfault (cause : Cause) : f.faultHere cause = e.faultHere cause := by
    simp only [faultHere]
    rw [hs.1]
    rfl
  have hcycle := Machine.cycle_withTimers (r := e.random) hu f.machine.delay f.machine.sound
  rw [← hs.1] at hcycle
  obtain ⟨hanswer, ⟨hkept, hkept'⟩ | ⟨-, hnext⟩⟩ :=
    next_of_mapped (·.withTimers f.machine.delay f.machine.sound) he hf hs.2 hfault hcycle
  · obtain ⟨hme, hre⟩ := core_eq_iff.mp hkept
    obtain ⟨hmf, hrf⟩ := core_eq_iff.mp hkept'
    refine ⟨hanswer, ⟨?_, ?_⟩, by rw [hmf], by rw [hmf]⟩
    · rw [hmf, hme]
      exact hs.1
    · rw [hrf, hre]
      exact hs.2
  · obtain ⟨hm, hr⟩ := Prod.mk.inj hnext
    refine ⟨hanswer, ⟨?_, hr⟩, ?_, ?_⟩
    · rw [hm]
      rfl
    · rw [hm]
      rfl
    · rw [hm]
      rfl

/-- An interleaving against its cycles alone, from engines that differ in their timers. -/
theorem interleaving_eq_cycles (hi : Interleaving n k inputs) (he : e.machine.WellFormed)
    (hf : f.machine.WellFormed) (hs : e.SameButTimers f) :
    f.timerFree inputs = e.timerFree (List.replicate n .cycle) ∧
      (f.timerFree inputs = true →
        f.answers inputs = e.answers (List.replicate n .cycle) ∧
        (e.after n).SameButTimers (f.drive inputs) ∧
        (f.drive inputs).machine.delay = max 0 (f.machine.delay - k) ∧
        (f.drive inputs).machine.sound = max 0 (f.machine.sound - k)) := by
  -- on the interleaving: a tick leaves the engines the same but for their timers, and so does a cycle
  -- that does not use them
  induction hi generalizing e f with
  | nil =>
    have hdelay := hf.delay_range
    have hsound := hf.sound_range
    refine ⟨rfl, fun _ => ⟨rfl, hs, ?_, ?_⟩⟩
    · have : (f.drive []).machine.delay = f.machine.delay := rfl
      omega
    · have : (f.drive []).machine.sound = f.machine.sound := rfl
      omega
  | @cycle n k inputs _ ih =>
    have huse := usesTimers_congr hs
    simp only [List.replicate_succ, timerFree, answers, drive_cons, accept, ← after_next, huse]
    cases hu : e.machine.usesTimers with
    | true =>
      refine ⟨rfl, fun hfree => ?_⟩
      cases hfree
    | false =>
      obtain ⟨hanswer, hnext, hdelay, hsound⟩ := sameButTimers_next he hf hs hu
      obtain ⟨hfree, hrest⟩ := ih (wellFormed_next he) (wellFormed_next hf) hnext
      simp only [Bool.not_false, Bool.true_and]
      refine ⟨hfree, fun h => ?_⟩
      obtain ⟨hanswers, hsame, hd, hs'⟩ := hrest h
      refine ⟨?_, hsame, ?_, ?_⟩
      · rw [hanswer, hanswers]
      · rw [hd, hdelay]
      · rw [hs', hsound]
  | @tick n k inputs _ ih =>
    obtain ⟨hfree, hrest⟩ := ih he hf.tick (sameButTimers_tick hs)
    refine ⟨hfree, fun h => ?_⟩
    obtain ⟨hanswers, hsame, hd, hs'⟩ := hrest h
    refine ⟨hanswers, hsame, ?_, ?_⟩
    · exact hd.trans (Machine.countDown_of_nonneg hf.delay_range.1 k).2
    · exact hs'.trans (Machine.countDown_of_nonneg hf.sound_range.1 k).2

/-- **Cycles and ticks are independent.** Of two interleavings of the same cycles and ticks both are timer
free or neither is. If they are, their cycles answer and fail alike, a failing cycle changes nothing, and
both come to the machine of the cycles alone with its timers counted down. -/
theorem interleavings_agree (e : Engine) (h : e.machine.WellFormed) (n k : Nat)
    (inputs inputs' : List Input) (hi : Interleaving n k inputs) (hi' : Interleaving n k inputs')
    (hfree : e.timerFree inputs = true) :
    e.timerFree inputs' = true ∧ e.answers inputs' = e.answers inputs ∧
      (∀ before, before <+: inputs ∨ before <+: inputs' → ∀ x f,
        step (e.drive before) = .error x f → f.core = (e.drive before).core) ∧
      (e.drive inputs').core = (e.drive inputs).core ∧
      (e.drive inputs).machine = (e.after n).machine.withTimers
        (max 0 (e.machine.delay - k)) (max 0 (e.machine.sound - k)) ∧
      (e.drive inputs).random = (e.after n).random := by
  obtain ⟨hplain, hrest⟩ := interleaving_eq_cycles hi h h e.sameButTimers_self
  obtain ⟨hplain', hrest'⟩ := interleaving_eq_cycles hi' h h e.sameButTimers_self
  have hfree' : e.timerFree inputs' = true := by rw [hplain', ← hplain, hfree]
  obtain ⟨hanswers, ⟨hm, hr⟩, hd, hs⟩ := hrest hfree
  obtain ⟨hanswers', ⟨hm', hr'⟩, hd', hs'⟩ := hrest' hfree'
  rw [hd, hs] at hm
  rw [hd', hs'] at hm'
  refine ⟨hfree', by rw [hanswers', hanswers], ?_, ?_, hm, hr⟩
  · intro before _ x f hstep
    exact core_of_step_error (wellFormed_drive h before) hstep
  · exact core_eq_iff.mpr ⟨by rw [hm', hm], by rw [hr', hr]⟩

/-- An addition, then a return with nothing to return to; both timers are running. -/
def returnsNowhere : Engine where
  machine := { Machine.fresh with
    memory := Memory.fresh.store Memory.programStart [0x70, 0x01, 0x00, 0xEE]
    delay := 3
    sound := 1 }
  random := .ofBytes #[]
  trace := false
  notes := #[]

theorem returnsNowhere_agrees :
    returnsNowhere.machine.WellFormed ∧
      returnsNowhere.timerFree [.tick, .cycle, .tick, .cycle] = true ∧
      returnsNowhere.answers [.cycle, .cycle, .tick, .tick] =
        returnsNowhere.answers [.tick, .cycle, .tick, .cycle] ∧
      (returnsNowhere.drive [.tick, .cycle, .tick]).completes = false ∧
      (returnsNowhere.drive [.tick, .cycle, .tick, .cycle]).machine =
        (returnsNowhere.after 2).machine.withTimers 1 0 := by
  have hdelay : { Machine.fresh with delay := 3 }.WellFormed :=
    Machine.wellFormed_fresh.setDelay (by omega)
  have hw : returnsNowhere.machine.WellFormed := (hdelay.setSound (t := 1) (by omega)).setMemory _
  have hfree : returnsNowhere.timerFree [.tick, .cycle, .tick, .cycle] = true := by decide +kernel
  obtain ⟨-, hanswers, -, -, hm, -⟩ := interleavings_agree returnsNowhere hw 2 2 _ _
    (.tick (.cycle (.tick (.cycle .nil)))) (.cycle (.cycle (.tick (.tick .nil)))) hfree
  exact ⟨hw, hfree, hanswers, by decide +kernel, hm⟩

end Engine
end Chip8
