import Chip8.Condition
import Chip8.Event

/-!
# Chip8.Debugger

Breakpoints, conditions and requests that stop a run before an instruction begins.
-/

namespace Chip8

structure Debugger where
  /-- Addresses in strictly ascending order. -/
  breakpoints : List Nat
  /-- The place of a condition is its id; a removed one leaves a hole. -/
  conditions : List (Option Condition)
  requested : Bool
  last : Option Event
  deriving DecidableEq

namespace Debugger

def fresh : Debugger :=
  ⟨[], [], false, none⟩

/-- Puts a number into an ascending list unless it is there. -/
def insert (a : Nat) : List Nat → List Nat
  | [] => [a]
  | b :: bs => if a < b then a :: b :: bs else if a = b then b :: bs else b :: insert a bs

/-- Addresses count by their twelve low bits. -/
def addBreakpoint (d : Debugger) (a : Int) : Debugger :=
  { d with breakpoints := insert (Memory.wrap a) d.breakpoints }

def removeBreakpoint (d : Debugger) (a : Int) : Debugger :=
  { d with breakpoints := d.breakpoints.filter (· ≠ Memory.wrap a) }

def hasBreakpoint (d : Debugger) (a : Int) : Bool :=
  d.breakpoints.contains (Memory.wrap a)

def clearBreakpoints (d : Debugger) : Debugger :=
  { d with breakpoints := [] }

/-- Puts a condition into the first hole, or behind the last. -/
def place (c : Condition) : List (Option Condition) → List (Option Condition) × Nat
  | [] => ([some c], 0)
  | none :: cs => (some c :: cs, 0)
  | some b :: cs =>
    let (cs, id) := place c cs
    (some b :: cs, id + 1)

/-- Adds a condition; the answer is its id. -/
def addCondition (d : Debugger) (c : Condition) : Nat × Debugger :=
  let (conditions, id) := place c d.conditions
  (id, { d with conditions })

/-- Adds a condition given by its texts; texts that make none change nothing. -/
def watch (d : Debugger) (register relation : String) (value : Int) (description : String) :
    Except ConditionError (Nat × Debugger) :=
  match Condition.ofText register relation value description with
  | .ok c => .ok (d.addCondition c)
  | .error e => .error e

/-- An id that no condition has is let pass. -/
def removeCondition (d : Debugger) (id : Int) : Debugger :=
  if 0 ≤ id then { d with conditions := d.conditions.set id.toNat none } else d

def clearConditions (d : Debugger) : Debugger :=
  { d with conditions := [] }

/-- The conditions with their ids, in ascending order. -/
def listConditions (d : Debugger) : List (Nat × Condition) :=
  d.conditions.zipIdx.filterMap fun (c, id) => c.map fun c => (id, c)

def request (d : Debugger) : Debugger :=
  { d with requested := true }

def clearRequest (d : Debugger) : Debugger :=
  { d with requested := false }

def clearLast (d : Debugger) : Debugger :=
  { d with last := none }

def clearAll (_ : Debugger) : Debugger :=
  fresh

def interrupted (pc : Int) : Event where
  reason := .userInterrupt
  address := some pc
  message := "User interrupt"

def atBreakpoint (pc : Int) : Event where
  reason := .pcBreakpoint
  address := some pc
  message := "Breakpoint at $" ++ Text.hex 3 pc

def onCondition (pc : Int) (c : Condition) : Event where
  reason := .registerCondition
  address := some pc
  message := "Condition: " ++ c.description

/-- The condition with the lowest id that holds. -/
def firstHolding? (d : Debugger) (m : Machine) : Option Condition :=
  d.conditions.findSome? fun c => c.filter fun c => c.holds m

/-- Whether a run goes on at `pc`. A request comes before a breakpoint, a breakpoint before a
condition; a request is used up by the stop it makes. -/
def check (d : Debugger) (m : Machine) (pc : Int) : Bool × Debugger :=
  if d.requested then
    (false, { d with requested := false, last := some (interrupted pc) })
  else if d.breakpoints.any fun a => (a : Int) = pc then
    (false, { d with last := some (atBreakpoint pc) })
  else
    match d.firstHolding? m with
    | some c => (false, { d with last := some (onCondition pc c) })
    | none => (true, d)

end Debugger
end Chip8
