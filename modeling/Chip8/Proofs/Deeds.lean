import Chip8.Proofs.Conduct
import Chip8.Proofs.Protection

/-!
# Chip8.Proofs.Deeds

All that may be done to a session from outside, in any order. Next to the operations that is what passes
them by: a program out of a file, keys that are released together, and cycles that nobody counts.

A deed drives the machine by plain inputs, or loads, writes, takes a frame or resets (`changes_undergo`).
So what inputs and these four keep, any deeds keep: the machine stays within its bounds
(`wellFormed_undergoAll`), and the memory below the program area as it was at power on until somebody
writes to memory (`intactBelow_undergoAll`).
-/

namespace Chip8

/-- Glyphs and zeros below the program area. -/
def Machine.IntactBelow (m : Machine) : Prop :=
  ∀ c < 0x200, m.memory.read c = Memory.glyphs.getD c 0

theorem Machine.intactBelow_fresh : fresh.IntactBelow := by
  intro c hc
  exact Memory.read_fresh (by omega)

theorem Machine.IntactBelow.load {m m' : Machine} {program : List UInt8} (h : m.IntactBelow)
    (hl : m.load program = .ok m') : m'.IntactBelow := by
  intro c hc
  rw [read_load hl hc, h c hc]

namespace Session

open Engine (Input ended)

variable {s s' s'' : Session}

/-- What may be done to a session. -/
inductive Deed where
  | operation (op : Operation)
  | loadFile (files : Files) (path : String)
  | releaseAll
  | cycle
  | execute (budget : Int)

def undergo (s : Session) : Deed → Session
  | .operation op => s.apply op
  | .loadFile files path =>
    match s.loadFile files path with
    | .ok s => s
    | .error _ => s
  | .releaseAll => s.change Machine.releaseAll
  | .cycle => ended (cycle s)
  | .execute budget => ended (execute .debugger budget s)

def undergoAll (s : Session) (deeds : List Deed) : Session :=
  deeds.foldl undergo s

theorem undergoAll_append (s : Session) (before after : List Deed) :
    s.undergoAll (before ++ after) = (s.undergoAll before).undergoAll after :=
  List.foldl_append ..

/-- What a deed answers. -/
inductive Reply where
  | done
  | event (answer : Except Defect Event)
  | found (answer : Except Defect Bool)
  | cycled (answer : Except Failure (Option Instruction))
  | counted (answer : Except Failure Nat)
  | loaded (answer : Except LoadError Unit)
  | fileLoaded (answer : Except FileLoadError Unit)
  | held (answer : Except KeyError Unit)
  | pending (frame : Bool)
  | condition (id : Except ConditionError Nat)
  | goesOn (answer : Bool)

/-- What a computation answers, or how it fails. -/
def answered {α ε σ : Type} : EStateM.Result ε σ α → Except ε α
  | .ok a _ => .ok a
  | .error x _ => .error x

def debugReply (m : Machine) (d : Debugger) : Debugger.Operation → Reply
  | .addCondition c => .condition (.ok (d.addCondition c).1)
  | .watch register relation value description =>
    .condition ((d.watch register relation value description).map Prod.fst)
  | .check pc => .goesOn (d.check m pc).1
  | _ => .done

def reply (s : Session) : Deed → Reply
  | .operation (.load program) => .loaded ((s.load program).map fun _ => ())
  | .operation .step => .event (answered (step s))
  | .operation (.run budget) => .event (answered (run budget .debugger s))
  | .operation (.runFrames frames stop) => .event (answered (runFrames frames stop .debugger s))
  | .operation (.runUntil a budget) => .found (answered (runUntil a budget .debugger s))
  | .operation (.holdKey key held) => .held ((s.machine.holdKey key held).map fun _ => ())
  | .operation .takeFrame => .pending s.takeFrame.1
  | .operation (.debug op) => debugReply s.machine s.debugger op
  | .operation (.poke _ _) | .operation .tick | .operation .reset | .releaseAll => .done
  | .loadFile files path => .fileLoaded ((s.loadFile files path).map fun _ => ())
  | .cycle => .cycled (answered (cycle s))
  | .execute budget => .counted (answered (execute .debugger budget s))

/-! ## Driving -/

/-- Plain inputs lead from one machine to the other. -/
def DrivenTo (s s' : Session) : Prop :=
  ∃ inputs, s'.engine.core = (s.engine.drive inputs).core

theorem DrivenTo.refl (h : s'.engine.core = s.engine.core) : s.DrivenTo s' := ⟨[], h⟩

theorem DrivenTo.trans (h : s.DrivenTo s') (h' : s'.DrivenTo s'') : s.DrivenTo s'' := by
  obtain ⟨inputs, hs'⟩ := h
  obtain ⟨inputs', hs''⟩ := h'
  refine ⟨inputs ++ inputs', ?_⟩
  rw [Engine.drive_append, hs'']
  exact Engine.drive_congr hs' inputs'

theorem drivenTo_act (s : Session) (a : Act) : s.DrivenTo (s.act a) :=
  ⟨s.inputs a, core_act s a⟩

theorem drivenTo_runFramesLeft (stop : Bool) (total : Int) (n : Nat) (s : Session) :
    s.DrivenTo (left (runFramesLeft .debugger stop total n) s) := by
  induction n generalizing s with
  | zero => exact .refl rfl
  | succ n ih =>
    have hrun := drivenTo_act s (.run Settings.cyclesPerTick)
    simp only [act, left] at hrun
    simp only [left, runFramesLeft_succ]
    cases hr : run Settings.cyclesPerTick .debugger s with
    | error d s' =>
      rw [hr] at hrun
      exact hrun
    | ok event s' =>
      rw [hr] at hrun
      have htick : s'.DrivenTo s'.tick := drivenTo_act s' .tick
      dsimp only
      by_cases hgo : goesOn stop event = true
      · rw [if_pos hgo]
        exact hrun.trans (htick.trans (ih s'.tick))
      · rw [if_neg hgo]
        exact hrun

theorem drivenTo_runUntil (a budget : Int) (s : Session) :
    s.DrivenTo (left (runUntil a budget .debugger) s) := by
  have hset : s.DrivenTo (s.control (·.addBreakpoint a)) := .refl rfl
  refine (hset.trans (drivenTo_act _ (.run budget))).trans (.refl ?_)
  simp only [act, left, runUntil]
  cases run budget .debugger (s.control (·.addBreakpoint a)) with
  | ok event s' => dsimp only; split <;> rfl
  | error d s' => dsimp only; split <;> rfl

/-! ## What a deed does to the machine -/

/-- What becomes of the machine and its random bytes. -/
inductive Changes (s : Session) : Deed → Machine × RandomSource → Prop where
  | drives (d : Deed) (inputs : List Input) : Changes s d (s.engine.drive inputs).core
  | loads (d : Deed) {program : List UInt8} {m : Machine} : s.machine.load program = .ok m →
      Changes s d (m, s.engine.random)
  | pokes (a : Int) (bytes : List UInt8) :
      Changes s (.operation (.poke a bytes)) (s.machine.poke a bytes, s.engine.random)
  | takesFrame :
      Changes s (.operation .takeFrame) ({ s.machine with drawn := false }, s.engine.random)
  | resets : Changes s (.operation .reset) (s.machine.powerOn, s.engine.random)

theorem Changes.of_drivenTo (d : Deed) (h : s.DrivenTo s') : s.Changes d s'.engine.core := by
  obtain ⟨inputs, h⟩ := h
  rw [h]
  exact .drives d inputs

theorem reset_core (s : Session) : s.reset.engine.core = (s.machine.powerOn, s.engine.random) := by
  simp only [reset, Engine.core, machine]

theorem changes_loadFile (d : Deed) {files : Files} {path : String}
    (h : s.loadFile files path = .ok s') : s.Changes d s'.engine.core := by
  simp only [loadFile, load] at h
  split at h
  case h_5 =>
    split at h
    · rename_i hl
      split at hl
      · rename_i hm
        cases hl
        cases h
        exact .loads d hm
      · cases hl
    · cases h
  all_goals cases h

theorem changes_undergo (s : Session) (d : Deed) : s.Changes d (s.undergo d).engine.core := by
  cases d with
  | loadFile files path =>
    simp only [undergo]
    cases h : s.loadFile files path with
    | ok s' => exact changes_loadFile _ h
    | error x => exact .of_drivenTo _ (.refl rfl)
  | releaseAll => exact .of_drivenTo _ (drivenTo_act s .releaseAll)
  | cycle => exact .of_drivenTo _ (drivenTo_act s .cycle)
  | execute budget => exact .of_drivenTo _ (drivenTo_act s (.execute .debugger budget))
  | operation op =>
    cases op with
    | load program =>
      simp only [undergo, apply, load]
      cases h : s.machine.load program with
      | ok m => exact .loads _ h
      | error x => exact .of_drivenTo _ (.refl rfl)
    | poke a bytes => exact .pokes a bytes
    | step => exact .of_drivenTo _ (drivenTo_act s .step)
    | run budget => exact .of_drivenTo _ (drivenTo_act s (.run budget))
    | runFrames frames stop => exact .of_drivenTo _ (drivenTo_runFramesLeft stop frames _ s)
    | runUntil a budget => exact .of_drivenTo _ (drivenTo_runUntil a budget s)
    | tick => exact .of_drivenTo _ (drivenTo_act s .tick)
    | holdKey key held => exact .of_drivenTo _ (drivenTo_act s (.holdKey key held))
    | takeFrame => exact .takesFrame
    | reset =>
      rw [undergo, apply, reset_core]
      exact .resets
    | debug op => exact .of_drivenTo _ (.refl rfl)

/-! ## What deeds keep -/

/-- What deeds keep one by one, they keep. -/
theorem undergoAll_invariant {P : Session → Prop} {deeds : List Deed}
    (hstep : ∀ s, ∀ d ∈ deeds, P s → P (s.undergo d)) (h : P s) : P (s.undergoAll deeds) := by
  induction deeds generalizing s with
  | nil => exact h
  | cons d deeds ih =>
    refine ih (fun s d' hd' => hstep s d' (List.mem_cons_of_mem d hd')) ?_
    exact hstep s d List.mem_cons_self h

theorem wellFormed_changes (h : s.machine.WellFormed) {d : Deed} {c : Machine × RandomSource}
    (hc : s.Changes d c) : c.1.WellFormed := by
  cases hc with
  | drives => exact Engine.wellFormed_drive h _
  | loads _ hl => exact h.load hl
  | pokes a bytes => exact h.poke a bytes
  | takesFrame => exact h.setScreen s.machine.screen false
  | resets => exact .powerOn _

theorem wellFormed_undergoAll (h : s.machine.WellFormed) (deeds : List Deed) :
    (s.undergoAll deeds).machine.WellFormed :=
  undergoAll_invariant (P := fun s => s.machine.WellFormed)
    (fun s d _ h => wellFormed_changes h (changes_undergo s d)) h

/-- Only a deed that writes to memory can touch the protected area. -/
theorem intactBelow_changes (h : s.machine.WellFormed) (hi : s.machine.IntactBelow) {d : Deed}
    (hd : ∀ a bytes, d ≠ .operation (.poke a bytes)) {c : Machine × RandomSource}
    (hc : s.Changes d c) : c.1.IntactBelow := by
  cases hc with
  | drives =>
    intro c hc
    exact (Engine.read_drive h _ hc).trans (hi c hc)
  | loads _ hl => exact hi.load hl
  | pokes a bytes => exact absurd rfl (hd a bytes)
  | takesFrame => exact hi
  | resets =>
    intro c hc
    exact Memory.read_withGlyphs_of_eq (hi c hc) (by omega)

theorem intactBelow_undergoAll (h : s.machine.WellFormed) (hi : s.machine.IntactBelow)
    {deeds : List Deed} (hd : ∀ a bytes, .operation (.poke a bytes) ∉ deeds) :
    (s.undergoAll deeds).machine.IntactBelow := by
  refine (undergoAll_invariant (P := fun s => s.machine.WellFormed ∧ s.machine.IntactBelow)
    (fun s d hmem ⟨h, hi⟩ => ?_) ⟨h, hi⟩).2
  have hc := changes_undergo s d
  refine ⟨wellFormed_changes h hc, intactBelow_changes h hi ?_ hc⟩
  rintro a bytes rfl
  exact hd a bytes hmem

end Session
end Chip8
