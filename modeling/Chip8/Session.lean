import Chip8.Debugger
import Chip8.Engine
import Chip8.Files
import Chip8.Listing
import Chip8.Settings

/-!
# Chip8.Session

An engine under a debugger: single steps, bounded runs, frames of cycles with a timer tick each, and
the event that ended each of them. Faults end a run and become events; only a machine out of its
bounds makes an operation fail.
-/

namespace Chip8

structure Session where
  engine : Engine
  debugger : Debugger
  /-- The program counters and words that a recording hook was asked about. -/
  record : Array (Nat × Nat)
  /-- Cycles that steps and runs have counted since the last reset. -/
  cycles : Nat

/-- Why the program in a file could not be loaded. -/
inductive FileLoadError where
  | notFound (path : String)
  | unreadable (error : FileError)
  | program (error : LoadError)
  deriving DecidableEq, Repr

def FileLoadError.message : FileLoadError → String
  | notFound path => "ROM file not found: " ++ path
  | unreadable e => e.message
  | program e => e.message

/-- Which hook a run is under. -/
inductive Watch where
  | off
  | debugger
  /-- Records every question, and stops once there are more than `limit`. -/
  | recorder (limit : Option Int)
  deriving DecidableEq, Repr

def Watch.hook : Watch → Hook (Debugger × Array (Nat × Nat))
  | off => Hook.off
  | debugger => fun m pc _ (d, record) =>
    let (go, d) := d.check m pc
    (go, (d, record))
  | recorder limit => fun _ pc opcode (d, record) =>
    let record := record.push (pc, opcode)
    (limit.all fun k => decide ((record.size : Int) ≤ k), (d, record))

/-- A computation on a session that fails only when the machine is out of its bounds. -/
abbrev Control := EStateM Defect Session

namespace Session

def ofEngine (engine : Engine) : Session :=
  ⟨engine, Debugger.fresh, #[], 0⟩

def start (random : RandomSource) (trace : Bool) : Session :=
  ofEngine ⟨Machine.fresh, random, trace, #[]⟩

/-- A session on a fresh machine; `spare` seeds the random bytes if the settings do not. -/
def ofSettings (settings : Settings) (spare : Int) : Session :=
  start (RandomSource.ofSeed (settings.seed.getD spare)) settings.trace

def machine (s : Session) : Machine :=
  s.engine.machine

def change (s : Session) (f : Machine → Machine) : Session :=
  { s with engine := { s.engine with machine := f s.engine.machine } }

def note (s : Session) (n : Note) : Session :=
  { s with engine := { s.engine with notes := s.engine.notes.push n } }

def control (s : Session) (f : Debugger → Debugger) : Session :=
  { s with debugger := f s.debugger }

/-- Loads a program; one that is too large changes nothing. -/
def load (s : Session) (program : List UInt8) : Except LoadError Session :=
  match s.machine.load program with
  | .ok m => .ok ((s.change fun _ => m).note (.programLoaded program.length))
  | .error e => .error e

/-- Loads the program in a file. -/
def loadFile (s : Session) (files : Files) (path : String) : Except FileLoadError Session :=
  let path := Path.normal path
  match files path with
  | .missing | .blocked => .error (.notFound path)
  | .directory => .error (.unreadable (.isDirectory path))
  | .tooLong => .error (.unreadable (.tooLong path))
  | .file program =>
    match s.load program with
    | .ok s => .ok (s.note (.fileLoaded (Path.name path)))
    | .error e => .error (.program e)

/-- Power on again. Breakpoints, conditions and random bytes stay as they are. -/
def reset (s : Session) : Session :=
  { s with
    engine := { s.engine with machine := s.engine.machine.powerOn }
    debugger := s.debugger.clearRequest.clearLast
    cycles := 0 }

def tick (s : Session) : Session :=
  s.change Machine.tick

/-- Nothing runs between two operations. -/
def isRunning (_ : Session) : Bool :=
  false

def soundActive (s : Session) : Bool :=
  0 < s.machine.sound

/-- Whether a frame was pending; it is pending no more. -/
def takeFrame (s : Session) : Bool × Session :=
  (s.machine.drawn, s.change fun m => { m with drawn := false })

def stepped (pc : Int) : Event where
  reason := .step
  address := some pc
  message := "Step at $" ++ Text.hex 3 pc

def awaitingKey (pc : Int) : Event where
  reason := .keyWait
  address := some pc
  message := "Waiting for key at $" ++ Text.hex 3 pc

def budgetSpent (pc : Int) (budget : Int) : Event where
  reason := .maxCycles
  address := some pc
  message := "Reached max cycles (" ++ toString budget ++ ")"

def framesDone (pc : Int) (frames : Int) : Event where
  reason := .maxCycles
  address := some pc
  message := "Completed " ++ toString frames ++ " frames"

def faulted (pc : Int) (f : Fault) : Event where
  reason := .error
  address := some pc
  error := some (.fault f)
  message := f.message

/-- Ends a step or run that failed: a fault is noted and becomes an event. -/
def fail (f : Failure) : Control Event := fun s =>
  match f with
  | .fault f => .ok (faulted s.machine.pc f) (s.note (.stopped f))
  | .defect d => .error d s

/-- One cycle, whatever the debugger would say. -/
def step : Control Event := fun ⟨engine, debugger, record, cycles⟩ =>
  let pc := engine.machine.pc
  match Engine.step engine with
  | .ok (some _) engine =>
    .ok (stepped engine.machine.pc) ⟨engine, debugger, record, cycles + 1⟩
  | .ok none engine => .ok (awaitingKey pc) ⟨engine, debugger, record, cycles + 1⟩
  | .error f engine => fail f ⟨engine, debugger, record, cycles⟩

/-- The event of a run that has spent its budget or was stopped; what the debugger has to say comes
first. -/
def outcome (budget : Int) (s : Session) : Event :=
  match s.debugger.last with
  | some event => event
  | none =>
    if s.machine.isAwaiting then awaitingKey s.machine.pc
    else budgetSpent s.machine.pc budget

/-- Runs cycles in bulk. The cycles of a run that fails are not counted. -/
def runBulk (watch : Watch) (budget : Int) (cycles : Int) : Control Event :=
  fun ⟨engine, debugger, record, total⟩ =>
    match Engine.execute watch.hook cycles.toNat engine (debugger, record) with
    | .ok done (engine, debugger, record) =>
      let s : Session := ⟨engine, debugger, record, total + done⟩
      .ok (outcome budget s) s
    | .error f (engine, debugger, record) => fail f ⟨engine, debugger, record, total⟩

/-- Runs at most `budget` cycles. A breakpoint at the first program counter is stepped over. -/
def run (budget : Int) (watch : Watch := .debugger) : Control Event := do
  modify fun s => s.control Debugger.clearLast
  let s ← get
  if 0 < budget ∧ s.debugger.hasBreakpoint s.machine.pc then
    let event ← step
    if event.reason = .step then runBulk watch budget (budget - 1) else return event
  else runBulk watch budget budget

/-- Runs `frames` frames of cycles with a timer tick behind each. A key wait ends the cycles of its
frame, or the whole run if `stopOnKeyWait`. -/
def runFramesLeft (watch : Watch) (stopOnKeyWait : Bool) (total : Int) : Nat → Control Event
  | 0 => do return framesDone (← get).machine.pc total
  | frames + 1 => do
    let event ← run Settings.cyclesPerTick watch
    if event.reason = .maxCycles ∨ (event.reason = .keyWait ∧ !stopOnKeyWait) then
      modify tick
      runFramesLeft watch stopOnKeyWait total frames
    else return event

def runFrames (frames : Int) (stopOnKeyWait : Bool := false) (watch : Watch := .debugger) :
    Control Event :=
  runFramesLeft watch stopOnKeyWait frames frames.toNat

/-- Runs until the program counter comes to `address`; says whether it did. A breakpoint that was
not there before is taken away again. -/
def runUntil (address budget : Int) (watch : Watch := .debugger) : Control Bool := fun s =>
  let wasSet := s.debugger.hasBreakpoint address
  let restore (s : Session) : Session :=
    if wasSet then s else s.control (·.removeBreakpoint address)
  match run budget watch (s.control (·.addBreakpoint address)) with
  | .ok event s =>
    .ok (event.reason = .pcBreakpoint && event.address = some address) (restore s)
  | .error d s => .error d (restore s)

/-- Runs cycles under a hook without counting them or making events. -/
def execute (watch : Watch) (budget : Int) : EStateM Failure Session Nat :=
  fun ⟨engine, debugger, record, cycles⟩ =>
    match Engine.execute watch.hook budget.toNat engine (debugger, record) with
    | .ok done (engine, debugger, record) => .ok done ⟨engine, debugger, record, cycles⟩
    | .error f (engine, debugger, record) => .error f ⟨engine, debugger, record, cycles⟩

/-- One cycle without counting it or making an event. -/
def cycle : EStateM Failure Session (Option Instruction) :=
  fun ⟨engine, debugger, record, cycles⟩ =>
    match Engine.step engine with
    | .ok ins engine => .ok ins ⟨engine, debugger, record, cycles⟩
    | .error f engine => .error f ⟨engine, debugger, record, cycles⟩

/-- Hands over the notes taken so far. -/
def takeNotes (s : Session) : List Note × Session :=
  (s.engine.notes.toList, { s with engine := { s.engine with notes := #[] } })

/-- Lines of assembly text for `count` words of memory, from the program counter on if no address is
given. -/
def listAt (s : Session) (address : Option Int) (count : Int) : List Line :=
  let a := address.getD s.machine.pc
  Listing.lines [] a (s.machine.peek a (count * 2)) (some count)

def summary (s : Session) : String :=
  "Emulator(pc=$" ++ Text.hex 3 s.machine.pc ++ ", i=$" ++ Text.hex 3 s.machine.i ++
    ", cycles=" ++ toString s.cycles ++ ")"

def engineSummary (s : Session) : String :=
  "Chip8CPU(pc=$" ++ Text.hex 3 s.machine.pc ++ ", i=$" ++ Text.hex 3 s.machine.i ++
    ", sp=" ++ toString s.machine.sp ++ ")"

end Session
end Chip8
