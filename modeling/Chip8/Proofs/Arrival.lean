import Chip8.Proofs.Operation
import Chip8.Proofs.PlainFrames
import Mathlib.Order.Bounds.Basic

/-!
# Chip8.Proofs.Arrival

A run to an address under a debugger that has nothing else to say. `Engine.ArrivesAt` says without a
debugger when plain stepping is at the address.

The breakpoint of such a run is looked at before each cycle, and not behind the last one. So the run
finds every arrival but one with the last cycle that it may spend (`Session.Seeks` lists its three ends).

`reportsArrival_iff`: the answer is whether plain stepping arrives within the budget, and the run stops
at the first arrival, unless that one comes with the last cycle of the budget; then the program counter
is at the address and the answer is no.
-/

namespace Chip8

namespace Engine

variable {e : Engine} {a k : Nat}

/-- The first `k` cycles of plain stepping complete, none of them ends awaiting a key, and the last of
them brings the program counter to `a`. -/
structure ArrivesAt (e : Engine) (a k : Nat) : Prop where
  pos : 1 ≤ k
  completes : ∀ j < k, (e.after j).completes = true
  awake : ∀ j < k, (e.after (j + 1)).machine.isAwaiting = false
  pc : (e.after k).machine.pc = a

/-- The first `k` cycles complete an instruction each, and the next one is to begin at `a`. -/
structure StandsAt (e : Engine) (a k : Nat) : Prop where
  instruction : ∀ j < k, ∃ ins, step (e.after j) = .ok (some ins) (e.after (j + 1))
  awake : (e.after k).machine.isAwaiting = false
  pc : (e.after k).machine.pc = a

theorem instruction_iff (e : Engine) : e.completes = true ∧ e.next.machine.isAwaiting = false ↔
    ∃ ins, step e = .ok (some ins) e.next := by
  constructor
  · rintro ⟨hdone, hawake⟩
    cases hs : step e with
    | ok answer e' =>
      obtain rfl : e.next = e' := next_of_ok hs
      rw [isAwaiting_of_step hs] at hawake
      cases answer with
      | some ins => exact ⟨ins, rfl⟩
      | none => cases hawake
    | error f e' =>
      rw [completes_of_error hs] at hdone
      cases hdone
  · rintro ⟨ins, hs⟩
    exact ⟨completes_of_ok hs, isAwaiting_of_step hs⟩

theorem arrivesAt_iff : e.ArrivesAt a k ↔ 1 ≤ k ∧ e.StandsAt a k := by
  constructor
  · rintro ⟨hpos, hdone, hawake, hpc⟩
    refine ⟨hpos, fun j hj => (instruction_iff _).mp ⟨hdone j hj, hawake j hj⟩, ?_, hpc⟩
    obtain ⟨j, rfl⟩ := Nat.exists_eq_add_of_le' hpos
    exact hawake j (Nat.lt_succ_self j)
  · rintro ⟨hpos, hins, -, hpc⟩
    exact ⟨hpos, fun j hj => ((instruction_iff _).mpr (hins j hj)).1,
      fun j hj => ((instruction_iff _).mpr (hins j hj)).2, hpc⟩

/-- The first cycle apart. -/
theorem standsAt_succ_iff : e.StandsAt a (k + 1) ↔
    (∃ ins, step e = .ok (some ins) e.next) ∧ e.next.StandsAt a k := by
  constructor
  · rintro ⟨hins, hawake, hpc⟩
    rw [← after_next] at hawake hpc
    refine ⟨hins 0 (Nat.succ_pos k), fun j hj => ?_, hawake, hpc⟩
    rw [after_next, after_next]
    exact hins (j + 1) (by omega)
  · rintro ⟨hfirst, hins, hawake, hpc⟩
    rw [after_next] at hawake hpc
    refine ⟨fun j hj => ?_, hawake, hpc⟩
    cases j with
    | zero => exact hfirst
    | succ j =>
      rw [← after_next, ← after_next]
      exact hins j (by omega)

end Engine

/-- The debugger of a run to `a`. -/
structure Debugger.Marks (d : Debugger) (a : Nat) : Prop where
  only : d.OnlyBreakpoints
  breakpoints : d.breakpoints = [a]
  last : d.last = none

namespace Debugger.Marks

variable {d : Debugger} {a : Nat}

theorem stop?_eq (h : d.Marks a) (m : Machine) :
    d.stop? m = if m.pc = a then some (atBreakpoint a) else none := by
  have hlast : d.clearLast = d := by
    rw [clearLast, ← h.last]
  have hs := h.only.stop?_eq m
  rw [hlast, h.breakpoints] at hs
  rw [hs]
  by_cases hpc : m.pc = a <;> simp [hpc]

/-- Where the debugger lets a cycle begin stepping does not stand at `a`. -/
theorem not_standsAt (h : d.Marks a) {e : Engine} {k : Nat} (hallows : d.Allows (e.after k).machine) :
    ¬e.StandsAt a k := by
  rintro ⟨-, hawake, hpc⟩
  obtain hwait | hstop := hallows
  · rw [hawake] at hwait
    cases hwait
  · rw [h.stop?_eq, if_pos hpc] at hstop
    cases hstop

/-- If a cycle after cycles in a row completes no instruction, stepping never stands at `a`. -/
theorem not_standsAt_of_cut (h : d.Marks a) {k : Nat} {e e₁ : Engine} {record : Array (Nat × Nat)}
    {p₁ p₂ : Debugger × Array (Nat × Nat)}
    (hc : Engine.Cycles Watch.debugger.hook k e (d, record) e₁ p₁)
    (ha : Watch.debugger.hook.ask e₁.machine p₁ = (true, p₂))
    (hcut : ∀ ins e₂, Engine.step e₁ ≠ .ok (some ins) e₂) (j : Nat) : ¬e.StandsAt a j := by
  obtain ⟨d₁, record₁⟩ := p₁
  obtain ⟨d₂, record₂⟩ := p₂
  obtain ⟨hallows, rfl, rfl⟩ := hc.debugger
  obtain ⟨hlast, rfl, rfl⟩ := allows_of_ask ha
  obtain rfl := hc.eq_after
  rcases Nat.lt_trichotomy j k with hj | rfl | hj
  · exact h.not_standsAt (hallows j hj)
  · exact h.not_standsAt hlast
  · rintro ⟨hins, -, -⟩
    obtain ⟨ins, hs⟩ := hins k hj
    exact hcut ins _ hs

end Debugger.Marks

namespace Session

variable {s : Session} {a : Nat} {budget : Int}

/-- How a run ends that looks for `a` within `budget` cycles; `arrives` tells the positions of plain
stepping at which it should stop. -/
inductive Seeks (s : Session) (a : Nat) (arrives : Nat → Prop) (budget : Int) :
    EStateM.Result Defect Session Event → Prop where
  /-- It stops where stepping arrives first. -/
  | found {k : Nat} {s' : Session} : (k : Int) < budget → IsLeast {k | arrives k} k →
      s'.engine = s.engine.after k → s'.cycles = s.cycles + k →
      Seeks s a arrives budget (.ok (Debugger.atBreakpoint a) s')
  /-- It spends its budget, and does not look where it has come to. -/
  | spent {event : Event} {s' : Session} : (∀ k : Nat, k < budget → ¬arrives k) →
      s'.engine = s.engine.after budget.toNat → event.reason ≠ .pcBreakpoint →
      Seeks s a arrives budget (.ok event s')
  /-- A cycle fails or ends awaiting a key, and stepping arrives neither before it nor after it. -/
  | cut {res : EStateM.Result Defect Session Event} : (∀ k, ¬arrives k) →
      (∀ event s', res = .ok event s' → event.reason ≠ .pcBreakpoint) →
      Seeks s a arrives budget res

theorem reason_outcome {d : Debugger} (h : d.last = none) (e : Engine) (record : Array (Nat × Nat))
    (cycles : Nat) : (outcome budget ⟨e, d, record, cycles⟩).reason ≠ .pcBreakpoint := by
  simp only [outcome, h]
  split <;> simp [awaitingKey, budgetSpent]

theorem reason_fail {f : Failure} {event : Event} {s' : Session} (h : fail f s = .ok event s') :
    event.reason ≠ .pcBreakpoint := by
  cases f with
  | fault f =>
    cases h
    simp [faulted]
  | defect d => cases h

/-- A bulk run stops where the next cycle is to begin at `a`. -/
theorem runBulk_seeks (hd : s.debugger.Marks a) (budget cycles : Int) :
    s.Seeks a (s.engine.StandsAt a) cycles (runBulk .debugger budget cycles s) := by
  obtain ⟨e, d, record, total⟩ := s
  have hlast : d.last = none := hd.last
  have hb := Engine.execute_bulk Watch.debugger.hook cycles.toNat e (d, record)
  rw [runBulk_eq]
  dsimp only at hb hd ⊢
  generalize Engine.execute Watch.debugger.hook cycles.toNat e (d, record) = res at hb
  cases hb with
  | @spent e₁ p hc =>
    obtain ⟨d₁, record₁⟩ := p
    obtain ⟨hallows, rfl, rfl⟩ := hc.debugger
    exact .spent (fun k hk => hd.not_standsAt (hallows k (by omega))) hc.eq_after
      (reason_outcome hlast _ _ _)
  | @stopped k e₁ p₁ p₂ hk hc ha =>
    obtain ⟨d₁, record₁⟩ := p₁
    obtain ⟨d₂, record₂⟩ := p₂
    obtain ⟨hallows, rfl, rfl⟩ := hc.debugger
    obtain ⟨event, hawake, hstop, rfl, rfl⟩ := stop_of_ask ha
    obtain rfl := hc.eq_after
    rw [hd.stop?_eq] at hstop
    split at hstop
    · rename_i hpc
      cases hstop
      have hleast : IsLeast {k | e.StandsAt a k} k := by
        refine ⟨⟨hc.step_after, hawake, hpc⟩, fun j hj => Nat.le_of_not_lt fun hlt => ?_⟩
        exact hd.not_standsAt (hallows j hlt) hj
      dsimp only
      rw [outcome_of_stop rfl]
      refine .found (by omega) hleast rfl ?_
      dsimp only
      omega
    · cases hstop
  | @waits k e₁ e₂ p₁ p₂ hk hc ha hs =>
    refine .cut (hd.not_standsAt_of_cut hc ha (by simp [hs])) fun event s' hres => ?_
    obtain ⟨d₁, record₁⟩ := p₁
    obtain ⟨d₂, record₂⟩ := p₂
    obtain ⟨-, rfl, rfl⟩ := hc.debugger
    obtain ⟨-, rfl, rfl⟩ := allows_of_ask ha
    cases hres
    exact reason_outcome hlast _ _ _
  | @fails k e₁ e₂ p₁ p₂ f hk hc ha hs =>
    exact .cut (hd.not_standsAt_of_cut hc ha (by simp [hs])) fun event s' => reason_fail

/-- A first cycle that completes an instruction, and a search from there. -/
theorem Seeks.of_next {s₁ : Session} {ins : Instruction} {res : EStateM.Result Defect Session Event}
    (hs : Engine.step s.engine = .ok (some ins) s₁.engine) (hcycles : s₁.cycles = s.cycles + 1)
    (hpos : 0 < budget) (h : s₁.Seeks a (s₁.engine.StandsAt a) (budget - 1) res) :
    s.Seeks a (s.engine.ArrivesAt a) budget res := by
  have hnext : s.engine.next = s₁.engine := Engine.next_of_ok hs
  have harrives (k : Nat) : s.engine.ArrivesAt a (k + 1) ↔ s₁.engine.StandsAt a k := by
    rw [Engine.arrivesAt_iff, Engine.standsAt_succ_iff, hnext]
    exact ⟨fun h => h.2.2, fun h => ⟨Nat.le_add_left 1 k, ⟨ins, hs⟩, h⟩⟩
  have hafter (k : Nat) : s₁.engine.after k = s.engine.after (k + 1) := by
    rw [← hnext, Engine.after_next]
  cases h with
  | @found k s' hk hleast hengine htotal =>
    refine .found (k := k + 1) (by omega) ⟨(harrives k).mpr hleast.1, fun j hj => ?_⟩
      (hengine.trans (hafter k)) (by omega)
    obtain ⟨j, rfl⟩ := Nat.exists_eq_add_of_le' hj.pos
    exact Nat.succ_le_succ (hleast.2 ((harrives j).mp hj))
  | @spent event s' hnone hengine hreason =>
    have hbudget : budget.toNat = (budget - 1).toNat + 1 := by omega
    refine .spent (fun k hk hat => ?_) ?_ hreason
    · obtain ⟨k, rfl⟩ := Nat.exists_eq_add_of_le' hat.pos
      exact hnone k (by omega) ((harrives k).mp hat)
    · rw [hengine, hafter, hbudget]
  | cut hnone hreason =>
    refine .cut (fun k hat => ?_) hreason
    obtain ⟨k, rfl⟩ := Nat.exists_eq_add_of_le' hat.pos
    exact hnone k ((harrives k).mp hat)

/-- A search from a machine that is not at `a`; the debugger may be another. -/
theorem Seeks.of_elsewhere {s₁ : Session} {res : EStateM.Result Defect Session Event}
    (hengine : s₁.engine = s.engine) (hcycles : s₁.cycles = s.cycles)
    (haway : 0 < budget → s.machine.pc ≠ a)
    (h : s₁.Seeks a (s₁.engine.StandsAt a) budget res) :
    s.Seeks a (s.engine.ArrivesAt a) budget res := by
  have hstands {k : Nat} (hat : s.engine.ArrivesAt a k) : s₁.engine.StandsAt a k := by
    rw [hengine]
    exact (Engine.arrivesAt_iff.mp hat).2
  have harrives {k : Nat} (hpos : 1 ≤ k) (hat : s₁.engine.StandsAt a k) :
      s.engine.ArrivesAt a k := by
    rw [hengine] at hat
    exact Engine.arrivesAt_iff.mpr ⟨hpos, hat⟩
  cases h with
  | @found k s' hk hleast hend htotal =>
    have hpos : 1 ≤ k := by
      refine Nat.one_le_iff_ne_zero.mpr ?_
      rintro rfl
      refine haway (by omega) ?_
      rw [machine, ← hengine]
      exact hleast.1.pc
    refine .found hk ⟨harrives hpos hleast.1, fun j hj => hleast.2 (hstands hj)⟩ ?_ ?_
    · rw [hend, hengine]
    · rw [htotal, hcycles]
  | spent hnone hend hreason =>
    refine .spent (fun k hk hat => hnone k hk (hstands hat)) ?_ hreason
    rw [hend, hengine]
  | cut hnone hreason => exact .cut (fun k hat => hnone k (hstands hat)) hreason

/-- A run stops where stepping arrives at `a`; the cycle over a breakpoint at `a` is no arrival. -/
theorem run_seeks (hd : s.debugger.clearLast.Marks a) (ha : a < 0x1000) (budget : Int) :
    s.Seeks a (s.engine.ArrivesAt a) budget (run budget .debugger s) := by
  have hbreak : s.debugger.breakpoints = [a] := hd.breakpoints
  have hengine : (s.control Debugger.clearLast).engine = s.engine := rfl
  rw [run_eq]
  by_cases hp : 0 < budget ∧ s.debugger.hasBreakpoint s.machine.pc
  · rw [if_pos hp, step_session_eq]
    have hnone (hcut : ∀ ins e, Engine.step s.engine ≠ .ok (some ins) e) (k : Nat) :
        ¬s.engine.ArrivesAt a k := by
      rintro ⟨hpos, hdone, hawake, -⟩
      obtain ⟨ins, hs⟩ := (Engine.instruction_iff s.engine).mp ⟨hdone 0 hpos, hawake 0 hpos⟩
      exact hcut ins _ hs
    rw [hengine]
    cases hs : Engine.step s.engine with
    | ok answer e =>
      cases answer with
      | some ins =>
        have hrest := runBulk_seeks (s := ⟨e, s.debugger.clearLast, s.record, s.cycles + 1⟩) hd
          budget (budget - 1)
        exact .of_next hs rfl hp.1 hrest
      | none =>
        refine .cut (hnone (by simp [hs])) fun event s' hres => ?_
        cases hres
        simp [awaitingKey]
    | error f e =>
      refine .cut (hnone (by simp [hs])) fun event s' hres => ?_
      cases f with
      | fault f =>
        cases hres
        simp [faulted]
      | defect d => cases hres
  · rw [if_neg hp]
    have hbulk := runBulk_seeks (s := s.control Debugger.clearLast) hd budget budget
    have haway : 0 < budget → s.machine.pc ≠ a := by
      intro hpos hpc
      refine hp ⟨hpos, ?_⟩
      rw [hpc, Debugger.hasBreakpoint_iff ha, hbreak]
      exact List.mem_singleton_self a
    exact .of_elsewhere hengine rfl haway hbulk

/-! ## The answer -/

/-- How a search for `a` ends that may spend `n` cycles. -/
inductive SearchEnds (s : Session) (a : Nat) (n : Int) :
    EStateM.Result Defect Session Bool → Prop where
  | arrived {k : Nat} {s' : Session} : (k : Int) < n → IsLeast {k | s.engine.ArrivesAt a k} k →
      s'.engine = s.engine.after k → s'.cycles = s.cycles + k → SearchEnds s a n (.ok true s')
  | spent {s' : Session} : (∀ k : Nat, k < n → ¬s.engine.ArrivesAt a k) →
      s'.engine = s.engine.after n.toNat → SearchEnds s a n (.ok false s')
  | cut {res : EStateM.Result Defect Session Bool} : (∀ k, ¬s.engine.ArrivesAt a k) →
      (∀ s', res ≠ .ok true s') → SearchEnds s a n res

theorem marks_addBreakpoint {d : Debugger} (h : d.Idle) (ha : a < 0x1000) :
    (d.addBreakpoint a).clearLast.Marks a := by
  refine ⟨h.1, ?_, rfl⟩
  simp only [Debugger.addBreakpoint, Debugger.clearLast, h.2, Memory.wrap_of_lt ha]
  rfl

theorem runUntil_searchEnds (hd : s.debugger.Idle) (ha : a < 0x1000) (n : Int) :
    s.SearchEnds a n (runUntil a n .debugger s) := by
  have hseeks := run_seeks (s := s.control (·.addBreakpoint a)) (marks_addBreakpoint hd ha) ha n
  have hnew : s.debugger.hasBreakpoint a = false := by
    rw [Debugger.hasBreakpoint, hd.2]
    rfl
  simp only [runUntil, hnew, Bool.false_eq_true, if_false]
  generalize run n .debugger (s.control (·.addBreakpoint a)) = res at hseeks ⊢
  cases hseeks with
  | found hk hleast hengine hcycles =>
    simp only [Debugger.atBreakpoint, decide_true, Bool.and_self]
    exact .arrived hk hleast hengine hcycles
  | spent hnone hengine hreason =>
    simp only [hreason, decide_false, Bool.false_and]
    exact .spent hnone hengine
  | cut hnone hreason =>
    refine .cut hnone fun s' => ?_
    cases res with
    | ok event s₁ => simp [hreason event s₁ rfl]
    | error d s₁ => simp

/-- A search for `a` within `n` cycles answers whether plain stepping arrives there within them, and
stops where it first does. -/
structure ReportsArrival (s : Session) (a : Nat) (n : Int) : Prop where
  answer_iff : (∃ s', runUntil a n .debugger s = .ok true s') ↔
    ∃ k : Nat, k ≤ n ∧ s.engine.ArrivesAt a k
  stops : ∀ s', runUntil a n .debugger s = .ok true s' → s'.machine.pc = a ∧
    ∃ k, IsLeast {k | s.engine.ArrivesAt a k} k ∧ s'.engine = s.engine.after k ∧
      s'.cycles = s.cycles + k

/-- The last cycle of the budget brings stepping to `a`, and nobody looks. -/
theorem SearchEnds.false_of_isLeast {n : Int} {res : EStateM.Result Defect Session Bool}
    (h : s.SearchEnds a n res) (hleast : IsLeast {k | s.engine.ArrivesAt a k} n.toNat) :
    ∃ s', res = .ok false s' ∧ s'.machine.pc = a := by
  have hpos := hleast.1.pos
  cases h with
  | arrived hk hfirst =>
    have hle := hleast.2 hfirst.1
    omega
  | @spent s' hnone hengine =>
    refine ⟨s', rfl, ?_⟩
    rw [machine, hengine]
    exact hleast.1.pc
  | cut hnone => exact absurd hleast.1 (hnone _)

theorem reportsArrival_of_searchEnds {n : Int} (h : s.SearchEnds a n (runUntil a n .debugger s))
    (hlast : ¬IsLeast {k | s.engine.ArrivesAt a k} n.toNat) : s.ReportsArrival a n := by
  generalize hres : runUntil a n .debugger s = res at h
  cases h with
  | @arrived k s' hk hleast hengine hcycles =>
    refine ⟨⟨fun _ => ⟨k, Int.le_of_lt hk, hleast.1⟩, fun _ => ⟨s', hres⟩⟩, fun t ht => ?_⟩
    rw [hres] at ht
    cases ht
    refine ⟨?_, k, hleast, hengine, hcycles⟩
    rw [machine, hengine]
    exact hleast.1.pc
  | spent hnone hengine =>
    have hnever : ¬∃ k : Nat, k ≤ n ∧ s.engine.ArrivesAt a k := by
      rintro ⟨k, hk, hat⟩
      obtain hlt | heq := Int.lt_or_eq_of_le hk
      · exact hnone k hlt hat
      · refine hlast ⟨?_, fun j hj => Nat.le_of_not_lt fun hlt => hnone j (by omega) hj⟩
        rw [← heq]
        exact hat
    refine ⟨⟨?_, fun hat => absurd hat hnever⟩, fun t ht => ?_⟩
    · rintro ⟨t, ht⟩
      rw [hres] at ht
      cases ht
    · rw [hres] at ht
      cases ht
  | cut hnone hdenied =>
    rw [← hres] at hdenied
    refine ⟨⟨?_, ?_⟩, fun t ht => absurd ht (hdenied t)⟩
    · rintro ⟨t, ht⟩
      exact absurd ht (hdenied t)
    · rintro ⟨k, -, hat⟩
      exact absurd hat (hnone k)

/-- **A search reports every arrival but one on its last cycle.** It reports whether plain stepping
arrives unless stepping arrives for the first time on the last cycle of the budget; then it has come to
the address and denies it. On a machine within its bounds it always answers. -/
theorem reportsArrival_iff (s : Session) (hd : s.debugger.Idle) (a : Nat) (ha : a < 0x1000) (n : Int) :
    (s.ReportsArrival a n ↔ ¬IsLeast {k | s.engine.ArrivesAt a k} n.toNat) ∧
      (IsLeast {k | s.engine.ArrivesAt a k} n.toNat →
        ∃ s', runUntil a n .debugger s = .ok false s' ∧ s'.machine.pc = a) ∧
      (s.machine.WellFormed → ∃ answer s', runUntil a n .debugger s = .ok answer s') := by
  have hends := runUntil_searchEnds hd ha n
  refine ⟨⟨fun hreports hleast => ?_, reportsArrival_of_searchEnds hends⟩,
    hends.false_of_isLeast, fun hw => ?_⟩
  · have hpos := hleast.1.pos
    obtain ⟨s₁, hdenied, -⟩ := hends.false_of_isLeast hleast
    obtain ⟨s₂, hreported⟩ := hreports.answer_iff.mpr ⟨n.toNat, by omega, hleast.1⟩
    rw [hdenied] at hreported
    cases hreported
  · obtain ⟨answer, s', hrun, -⟩ := runUntil_total hw a n
    exact ⟨answer, s', hrun⟩

/-- One instruction, and then the address that is looked for. -/
def nextDoor : Session :=
  ofEngine {
    machine := { Machine.fresh with
      memory := Memory.fresh.store Memory.programStart [0x60, 0x01] }
    random := .ofBytes #[]
    trace := false
    notes := #[] }

theorem isLeast_nextDoor : IsLeast {k | nextDoor.engine.ArrivesAt 0x202 k} 1 := by
  refine ⟨⟨Nat.le_refl 1, ?_, ?_, ?_⟩, fun k hk => hk.pos⟩
  · decide +kernel
  · decide +kernel
  · decide +kernel

theorem idle_nextDoor : nextDoor.debugger.Idle :=
  ⟨⟨rfl, fun c hc => by cases hc⟩, rfl⟩

theorem nextDoor_reported :
    nextDoor.debugger.Idle ∧ IsLeast {k | nextDoor.engine.ArrivesAt 0x202 k} (1 : Int).toNat ∧
      nextDoor.ReportsArrival 0x202 2 ∧
      (∃ s', runUntil 0x202 1 .debugger nextDoor = .ok false s' ∧ s'.machine.pc = 0x202) ∧
      ∃ answer s', runUntil 0x202 1 .debugger nextDoor = .ok answer s' := by
  have hone := reportsArrival_iff nextDoor idle_nextDoor 0x202 (by decide) 1
  have htwo := reportsArrival_iff nextDoor idle_nextDoor 0x202 (by decide) 2
  have hlater : ¬IsLeast {k | nextDoor.engine.ArrivesAt 0x202 k} (2 : Int).toNat := by
    intro h
    exact absurd (isLeast_nextDoor.unique h) (by decide)
  exact ⟨idle_nextDoor, isLeast_nextDoor, htwo.1.mpr hlater, hone.2.1 isLeast_nextDoor,
    hone.2.2 (Machine.wellFormed_fresh.setMemory _)⟩

theorem nextDoor_denied : ¬nextDoor.ReportsArrival 0x202 1 := by
  intro h
  have hends := runUntil_searchEnds idle_nextDoor (a := 0x202) (by decide) 1
  obtain ⟨s₁, hdenied, -⟩ := hends.false_of_isLeast isLeast_nextDoor
  obtain ⟨s₂, hreported⟩ := h.answer_iff.mpr ⟨1, Int.le_refl 1, isLeast_nextDoor.1⟩
  rw [hdenied] at hreported
  cases hreported

end Session
end Chip8
