import Chip8.CommandLine.Failure
import Chip8.Listing

/-!
# Chip8.CommandLine.Disassemble

The command that lists a file as assembly text.
-/

namespace Chip8
namespace CommandLine
namespace Disassemble

def command : String := "chip8dis"

inductive Flag where
  | output
  | address
  | count
  | hexDump
  | verbose
  | version
  | help
  deriving DecidableEq, Repr

def spellings : List (Spelling Flag) :=
  [⟨"-o", .output, true⟩, ⟨"--output", .output, true⟩, ⟨"-a", .address, true⟩,
    ⟨"--address", .address, true⟩, ⟨"-c", .count, true⟩, ⟨"--count", .count, true⟩,
    ⟨"--hex", .hexDump, false⟩, ⟨"-v", .verbose, false⟩, ⟨"--verbose", .verbose, false⟩,
    ⟨"--version", .version, false⟩, ⟨"--help", .help, false⟩]

structure Options where
  output : Option String := none
  address : String := "0x200"
  count : Option Int := none
  hexDump : Bool := false
  verbose : Bool := false

/-- A listing that is asked for. -/
structure Job extends Options where
  path : String
  data : List UInt8

/-- The paths that a command line names. -/
def paths (args : List String) : List String :=
  match Words.read spellings args with
  | .ok ws => ws.arguments ++ ws.values .output
  | .error _ => []

def takeOption (files : Files) (ws : Words Flag) (o : Options) :
    Flag → Except UsageError Options
  | .output => do
    let output ← (ws.value? .output).mapM (writableFile files "--output")
    return { o with output }
  | .address => return { o with address := (ws.value? .address).getD o.address }
  | .count => return { o with count := ← ws.integer? .count "--count" none }
  | .hexDump => return { o with hexDump := true }
  | .verbose => return { o with verbose := true }
  | .version | .help => return o

def readRequest (files : Files) (args : List String) : Except UsageError (Request Job) := do
  let ws ← Words.read spellings args
  match ws.first? [.version, .help] with
  | some .version => return .version
  | some _ => return .help
  | none =>
    let o ← ws.takeOptions (takeOption files ws) {}
    ws.onlyArgument "INPUT_FILE" fun path => do
      let data ← existingFile files "INPUT_FILE" path
      return .work { o with path := Path.normal path, data }

/-- The base of an address is sixteen behind `0x` or a dollar sign and ten otherwise. -/
def readAddress (text : String) : Option Int :=
  match text.toList with
  | '$' :: digits => Text.readInteger .hexadecimal (String.ofList digits)
  | '0' :: 'x' :: _ | '0' :: 'X' :: _ => Text.readInteger .hexadecimal text
  | _ => Text.readInteger .decimal text

/-- An address that the machine has, or why there is none. -/
def baseAddress (text : String) : Except String Int :=
  match readAddress text with
  | none => .error ("Error: Invalid address '" ++ text ++ "'")
  | some a =>
    if 0 ≤ a ∧ a ≤ 0xFFF then .ok a
    else .error "Error: Address must be 0-4095 (0x000-0xFFF)"

def header (name : String) (size : Nat) (base : Int) : List String :=
  ["; Disassembly of " ++ name, "; Size: " ++ toString size ++ " bytes",
    "; Base address: $" ++ Text.hex 3 base, ""]

/-- Sixteen bytes of a file a line, each line labelled with the address of its first. -/
def dumpRows (a : Int) (data : List UInt8) : List String :=
  if data.isEmpty then []
  else
    ("; $" ++ Text.hex 3 a ++ ": " ++ Text.hexBytes (data.take 16)) ::
      dumpRows (a + 16) (data.drop 16)
termination_by data.length
decreasing_by
  simp_all only [List.isEmpty_iff, List.length_drop]
  have := List.length_pos_iff.2 ‹_›
  omega

def rule : String :=
  "; " ++ String.ofList (List.replicate 60 '-')

def dump (base : Int) (data : List UInt8) : List String :=
  ["; Hex dump:", rule] ++ dumpRows base data ++ [rule, ""]

/-- The text of a listing: header, dump if it is asked for, and lines. -/
def document (job : Job) (base : Int) (lines : List Line) : String :=
  Outcome.lines
    (header (Path.name job.path) job.data.length base ++
      (if job.hexDump then dump base job.data else []) ++ lines.map Line.text)

/-- Lines for the reader of a verbose command. -/
def remarks (job : Job) (ss : List String) : String :=
  if job.verbose then Outcome.allSaid ss else ""

def failed (before : String) (message : String) : Outcome :=
  { exit := ExitCode.runtimeError.code, stderr := before ++ Outcome.said message }

def work (files : Files) (job : Job) : Outcome :=
  match baseAddress job.address with
  | .error message => failed "" message
  | .ok base =>
    if job.data.isEmpty then failed "" ("Error: " ++ job.path ++ " is empty")
    else
      let before := remarks job
        ["Input file: " ++ job.path ++ " (" ++ toString job.data.length ++ " bytes)",
          "Base address: $" ++ Text.hex 3 base]
      let lines := Listing.lines [] base job.data job.count
      let text := document job base lines
      let after := remarks job ["Instructions disassembled: " ++ toString lines.length]
      match job.output with
      | none => { stdout := Text.plain text, stderr := before ++ after }
      | some path =>
        match files.refusal? path with
        | some e => failed before ("Error writing " ++ path ++ ": " ++ e.message)
        | none =>
          { stderr := before ++ remarks job ["Output written to: " ++ path] ++ after
            written := [(path, .text text)] }

def usage : List String :=
  ["Usage: chip8dis [OPTIONS] INPUT_FILE", "",
    "  Disassemble CHIP-8 bytecode.", "",
    "Options:",
    "  -o, --output FILE   Output file (default: stdout)",
    "  -a, --address TEXT  Base address for disassembly (hex with 0x or $ prefix, or",
    "                      decimal). Default: 0x200",
    "  -c, --count INTEGER Maximum number of instructions to disassemble (default: all)",
    "  --hex               Include hex dump before disassembly",
    "  -v, --verbose       Verbose output",
    "  --version           Show the version and exit.",
    "  --help              Show this message and exit."]

def answer (files : Files) (args : List String) : Answer :=
  match readRequest files args with
  | .error e => .ofUsageError e
  | .ok .version => .done { stdout := Outcome.line (versionLine command) }
  | .ok .help => .done { stdout := Outcome.lines usage }
  | .ok (.work job) => .done (work files job)

end Disassemble
end CommandLine
end Chip8
