import Chip8.CommandLine.Failure
import Chip8.Session

/-!
# Chip8.CommandLine.Run

The command that runs a program without a window and prints the screen.
-/

namespace Chip8
namespace CommandLine
namespace Run

def command : String := "chip8run"

inductive Flag where
  | cycles
  | frames
  | seed
  | key
  | screenshot
  | scale
  | trace
  | verbose
  | version
  | help
  deriving DecidableEq, Repr

def spellings : List (Spelling Flag) :=
  [⟨"--cycles", .cycles, true⟩, ⟨"--frames", .frames, true⟩, ⟨"--seed", .seed, true⟩,
    ⟨"-k", .key, true⟩, ⟨"--key", .key, true⟩, ⟨"--screenshot", .screenshot, true⟩,
    ⟨"--scale", .scale, true⟩, ⟨"--trace", .trace, false⟩, ⟨"-v", .verbose, false⟩,
    ⟨"--verbose", .verbose, false⟩, ⟨"--version", .version, false⟩, ⟨"--help", .help, false⟩]

structure Options where
  cycles : Option Int := none
  frames : Option Int := none
  seed : Option Int := none
  keys : List String := []
  screenshot : Option String := none
  scale : Int := 8
  trace : Bool := false
  verbose : Bool := false

/-- A run that is asked for. -/
structure Job extends Options where
  path : String
  data : List UInt8

/-- The paths that a command line names. -/
def paths (args : List String) : List String :=
  match Words.read spellings args with
  | .ok ws => ws.arguments ++ ws.values .screenshot
  | .error _ => []

def takeOption (files : Files) (ws : Words Flag) (o : Options) :
    Flag → Except UsageError Options
  | .cycles => return { o with cycles := ← ws.integer? .cycles "--cycles" (some 0) }
  | .frames => return { o with frames := ← ws.integer? .frames "--frames" (some 0) }
  | .seed => return { o with seed := ← ws.integer? .seed "--seed" none }
  | .key => return { o with keys := ws.values .key }
  | .screenshot => do
    let screenshot ← (ws.value? .screenshot).mapM (writableFile files "--screenshot")
    return { o with screenshot }
  | .scale => return { o with scale := (← ws.integer? .scale "--scale" (some 1)).getD o.scale }
  | .trace => return { o with trace := true }
  | .verbose => return { o with verbose := true }
  | .version | .help => return o

def readRequest (files : Files) (args : List String) : Except UsageError (Request Job) := do
  let ws ← Words.read spellings args
  match ws.first? [.version, .help] with
  | some .version => return .version
  | some _ => return .help
  | none =>
    let o ← ws.takeOptions (takeOption files ws) {}
    ws.onlyArgument "ROM_FILE" fun path => do
      let data ← existingFile files "ROM_FILE" path
      return .work { o with path := Path.normal path, data }

/-- What the environment says about a run, and a seed for when nothing says one. -/
structure Environment where
  seed : Option String
  trace : Option String
  spare : Int

/-- How notes show: all of them with their channel if the run is verbose or traced, and otherwise
only warnings. They are written as they are. -/
def noteLine? (job : Job) (n : Note) : Option String :=
  if job.verbose || job.trace then some (n.channel ++ ": " ++ n.message)
  else
    match n.level with
    | .warning => some n.message
    | .debug => none

def noteLines (job : Job) (notes : List Note) : String :=
  Outcome.lines (notes.filterMap (noteLine? job))

def remarks (job : Job) (ss : List String) : String :=
  if job.verbose then Outcome.allSaid ss else ""

/-- The end of a run that met trouble, behind what it has printed before. -/
def failed (before : Outcome) (t : Trouble) : Outcome :=
  { before with
    exit := t.exitCode.code
    stderr := before.stderr ++ t.lastWords "Load" }

/-- The session that a job asks for, with its program loaded. -/
def prepare (env : Environment) (job : Job) : Except Trouble Session := do
  let settings ← (Settings.ofEnvironment env.seed env.trace).mapError Trouble.ofSeedError
  let settings : Settings :=
    { seed := job.seed.or settings.seed, trace := job.trace || settings.trace }
  let s ← ((Session.ofSettings settings env.spare).load job.data).mapError Trouble.ofLoadError
  return s.note (.fileLoaded (Path.name job.path))

/-- Holds keys by their host names, from the first on. -/
def holdKeys (s : Session) : List String → Except Trouble Session
  | [] => .ok s
  | name :: names =>
    match s.machine.holdKey (.host name) true with
    | .ok m => holdKeys (s.change fun _ => m) names
    | .error e => .error (.ofKeyError e)

/-- The run itself: cycles, or else frames, sixty if nothing is said. -/
def drive (job : Job) : Control Event :=
  match job.cycles with
  | some n => Session.run n
  | none => Session.runFrames (job.frames.getD 60)

def statusLine (event : Event) (s : Session) : String :=
  "Stopped: " ++ event.text ++ " (pc=$" ++ Text.hex 3 s.machine.pc ++ ", i=$" ++
    Text.hex 3 s.machine.i ++ ", cycles=" ++ toString s.cycles ++ ")"

/-- Writes the picture that was asked for behind what was printed `before`. -/
def takePicture (files : Files) (job : Job) (s : Session) (before : Outcome) : Outcome :=
  match job.screenshot with
  | none => before
  | some path =>
    match Raster.render s.machine.screen job.scale with
    | .error e => failed before (.ofScaleError e)
    | .ok picture =>
      match files.refusal? path with
      | some e => failed before (.ofFileError e)
      | none =>
        { before with
          stderr := before.stderr ++ remarks job ["Screenshot written to: " ++ path]
          written := [(path, .picture picture)] }

/-- What is printed when a run has ended, and the exit code of its event. -/
def report (files : Files) (job : Job) (before : String) (event : Event) (s : Session) :
    Outcome :=
  takePicture files job s
    { exit := if event.isError then ExitCode.runtimeError.code else ExitCode.success.code
      stdout := Outcome.allSaid (s.machine.screen.plainLines ++ [statusLine event s])
      stderr := before ++ noteLines job s.takeNotes.1 }

def work (files : Files) (env : Environment) (job : Job) : Outcome :=
  if job.cycles.isSome && job.frames.isSome then
    { exit := ExitCode.invalidArguments.code
      stderr := Outcome.said "Error: --cycles and --frames are mutually exclusive" }
  else
    match prepare env job with
    | .error t => failed {} t
    | .ok s =>
      let (notes, s) := s.takeNotes
      let loaded := noteLines job notes
      match holdKeys s job.keys with
      | .error t => failed { stderr := loaded } t
      | .ok s =>
        let before := loaded ++ remarks job
          ["Loaded " ++ job.path ++ " (" ++ toString job.data.length ++ " bytes)"]
        match drive job s with
        | .ok event s => report files job before event s
        | .error d s =>
          failed { stderr := before ++ noteLines job s.takeNotes.1 } (.ofDefect d)

def usage : List String :=
  ["Usage: chip8run [OPTIONS] ROM_FILE", "",
    "  Run a CHIP-8 ROM headlessly and print the screen.", "",
    "Options:",
    "  --cycles INTEGER RANGE  Run this many instruction cycles (timers are not",
    "                          ticked)",
    "  --frames INTEGER RANGE  Run this many 60 Hz frames (default: 60)",
    "  --seed INTEGER          Seed for the RND instruction (default: $CHIP8_SEED or",
    "                          random)",
    "  -k, --key TEXT          Hold a key for the whole run (host name, e.g. 1, Q, V).",
    "                          Repeatable",
    "  --screenshot FILE       Write the final screen as a PNG image",
    "  --scale INTEGER RANGE   Pixel scale factor for --screenshot  [default: 8]",
    "  --trace                 Log every executed instruction (implies --verbose)",
    "  -v, --verbose           Verbose output",
    "  --version               Show the version and exit.",
    "  --help                  Show this message and exit."]

def answer (files : Files) (env : Environment) (args : List String) : Answer :=
  match readRequest files args with
  | .error e => .ofUsageError e
  | .ok .version => .done { stdout := Outcome.line (versionLine command) }
  | .ok .help => .done { stdout := Outcome.lines usage }
  | .ok (.work job) => .done (work files env job)

end Run
end CommandLine
end Chip8
