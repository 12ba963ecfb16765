import Chip8.Fault

/-!
# Chip8.Event

Why a run or a step came to its end.
-/

namespace Chip8

inductive Reason where
  | none
  | pcBreakpoint
  | registerCondition
  | step
  | keyWait
  | userInterrupt
  | maxCycles
  | error
  deriving DecidableEq, Repr

namespace Reason

def all : List Reason :=
  [none, pcBreakpoint, registerCondition, step, keyWait, userInterrupt, maxCycles, error]

def name : Reason → String
  | none => "NONE"
  | pcBreakpoint => "PC_BREAKPOINT"
  | registerCondition => "REGISTER_CONDITION"
  | step => "STEP"
  | keyWait => "KEY_WAIT"
  | userInterrupt => "USER_INTERRUPT"
  | maxCycles => "MAX_CYCLES"
  | error => "ERROR"

/-- The place of a reason among all, counted from one. -/
def number (r : Reason) : Nat :=
  all.idxOf r + 1

def ofName? (s : String) : Option Reason :=
  all.find? fun r => r.name = s

end Reason

structure Event where
  reason : Reason
  address : Option Int := none
  error : Option Error := none
  message : String := ""
  deriving DecidableEq, Repr

namespace Event

def isError (e : Event) : Bool :=
  e.reason = .error

/-- What an event says that carries no message. -/
def defaultText (e : Event) : String :=
  match e.reason with
  | .pcBreakpoint =>
    match e.address with
    | some a => "Breakpoint at $" ++ Text.hex 3 a
    | none => "Breakpoint"
  | .registerCondition => "Register condition met"
  | .step => "Single step"
  | .keyWait => "Waiting for key"
  | .maxCycles => "Maximum cycles reached"
  | .error => (e.error.map Error.message).getD "Execution error"
  | .none | .userInterrupt => "Unknown"

def text (e : Event) : String :=
  if e.message.isEmpty then e.defaultText else e.message

end Event
end Chip8
