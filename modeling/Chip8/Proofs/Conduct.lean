import Chip8.Proofs.Core
import Chip8.Proofs.Objections

/-!
# Chip8.Proofs.Conduct

Sessions whose machine is driven from outside. Whatever runs its cycles, one by one or in bulk, with the
debugger or without it, the machine is driven by plain inputs (`core_conduct`).
-/

namespace Chip8

namespace Engine

/-- The state that a result leaves. -/
def ended {α ε σ : Type} : EStateM.Result ε σ α → σ
  | .ok _ s => s
  | .error _ s => s

theorem next_eq (e : Engine) : e.next = ended (step e) := by
  simp only [next, ended]
  cases step e <;> rfl

end Engine

namespace Session

open Engine (Input ended)

/-- What drives the machine of a session: cycles, singly or in bulk and with or without the debugger,
timer ticks and key events. -/
inductive Act where
  | cycle
  | execute (watch : Watch) (budget : Int)
  | step
  | run (budget : Int)
  | tick
  | holdKey (key : Key) (held : Bool)
  | releaseAll

def act (s : Session) : Act → Session
  | .cycle => ended (cycle s)
  | .execute watch budget => ended (execute watch budget s)
  | .step => left step s
  | .run budget => left (run budget .debugger) s
  | .tick => s.tick
  | .holdKey key held => s.apply (.holdKey key held)
  | .releaseAll => s.change Machine.releaseAll

def conduct (s : Session) (acts : List Act) : Session :=
  acts.foldl act s

/-- The inputs of an act: a bulk of cycles is as many inputs as cycles begin. -/
def inputs (s : Session) : Act → List Input
  | .cycle | .step => [.cycle]
  | .execute watch budget =>
    List.replicate
      (Engine.trail watch.hook budget.toNat s.engine (s.debugger, s.record)).length .cycle
  | .run budget => List.replicate (s.runStretches budget).flatten.length .cycle
  | .tick => [.tick]
  | .holdKey key held => [.holdKey key held]
  | .releaseAll => [.releaseAll]

def allInputs (s : Session) : List Act → List Input
  | [] => []
  | a :: acts => s.inputs a ++ (s.act a).allInputs acts

theorem core_act (s : Session) (a : Act) :
    (s.act a).engine.core = (s.engine.drive (s.inputs a)).core := by
  cases a with
  | cycle =>
    have hnext : (s.act .cycle).engine = s.engine.next := by
      simp only [act, cycle, Engine.next, ended]
      cases Engine.step s.engine <;> rfl
    rw [hnext]
    rfl
  | execute watch budget =>
    obtain ⟨n, htrail, hleft⟩ := Engine.executed_eq_after watch.hook budget.toNat 0 s.engine
      (s.debugger, s.record)
    have hact : (s.act (.execute watch budget)).engine = Engine.executed watch.hook budget.toNat 0
        s.engine (s.debugger, s.record) := by
      simp only [act, execute, Engine.execute, Engine.executed, ended]
      cases Engine.executeFrom watch.hook budget.toNat 0 s.engine (s.debugger, s.record) <;> rfl
    rw [hact, hleft, inputs, htrail, List.length_map, List.length_range, Engine.drive_replicate]
  | step =>
    have hnext : (s.act .step).engine.core = s.engine.next.core := by
      simp only [act, left, step_session_eq, Engine.next]
      cases Engine.step s.engine with
      | ok a e => cases a <;> rfl
      | error f e => exact core_left_fail f _
    rw [hnext]
    rfl
  | run budget =>
    obtain ⟨n, hbegun, hcore⟩ := runStretches_eq_after budget s
    rw [inputs, hbegun, List.length_map, List.length_range, Engine.drive_replicate]
    exact hcore
  | tick | releaseAll => rfl
  | holdKey key held =>
    have hkey : (s.act (.holdKey key held)).engine = s.engine.accept (.holdKey key held) := by
      simp only [act, apply, Engine.accept, machine]
      cases s.engine.machine.holdKey key held <;> rfl
    rw [hkey]
    rfl

theorem core_conduct (s : Session) (acts : List Act) :
    (s.conduct acts).engine.core = (s.engine.drive (s.allInputs acts)).core := by
  induction acts generalizing s with
  | nil => rfl
  | cons a acts ih =>
    rw [allInputs, Engine.drive_append]
    exact (ih (s.act a)).trans (Engine.drive_congr (core_act s a) _)

end Session
end Chip8
