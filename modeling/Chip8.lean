import Chip8.Main
import Chip8.Proofs.Bounds
import Chip8.Proofs.Cycle
import Chip8.Proofs.Stepping
import Chip8.Proofs.Atomicity
import Chip8.Proofs.Run
import Chip8.Proofs.PlainStepping
import Chip8.Proofs.FrameBreakpoints
import Chip8.Proofs.Accounting
import Chip8.Proofs.Objections
import Chip8.Proofs.Effect
import Chip8.Proofs.Drive
import Chip8.Proofs.Protection
import Chip8.Proofs.Totality
import Chip8.Proofs.CallStack
import Chip8.Proofs.Core
import Chip8.Proofs.Conduct
import Chip8.Proofs.KeyWait
import Chip8.Proofs.RunEvent
import Chip8.Proofs.Timers
import Chip8.Proofs.PlainFrames
import Chip8.Proofs.Footprint
import Chip8.Proofs.IndexBits
import Chip8.Proofs.Deeds
import Chip8.Proofs.Redraw
import Chip8.Proofs.Seen
import Chip8.Proofs.Reset
import Chip8.Proofs.Assembly
import Chip8.Proofs.FetchedWord
import Chip8.Proofs.DebuggerView
import Chip8.Proofs.Drawing
import Chip8.Proofs.Arrival
import Chip8.Proofs.Arithmetic
import Chip8.Proofs.Transfer
import Chip8.Proofs.Composition
import Chip8.Proofs.ControlFlow
import Chip8.Proofs.Tiling
import Chip8.Proofs.Access
import Chip8.Proofs.Views
import Chip8.Proofs.Trace
import Chip8.Proofs.HeldKeys
import Chip8.Proofs.DebuggerSetup
import Chip8.Proofs.ListingFile
import Chip8.Proofs.Headless
