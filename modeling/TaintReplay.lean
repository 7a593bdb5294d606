import TaintReplay.Main
import TaintReplay.Proofs.Analysis.Address
import TaintReplay.Proofs.Analysis.Nesting
import TaintReplay.Proofs.Debugger.Naming
import TaintReplay.Proofs.Image.Contiguity
import TaintReplay.Proofs.Image.Loading
import TaintReplay.Proofs.Image.Overlay
import TaintReplay.Proofs.Options.Json
import TaintReplay.Proofs.Replay.Agreement
import TaintReplay.Proofs.Replay.Colors
import TaintReplay.Proofs.Replay.Dormancy
import TaintReplay.Proofs.Replay.Failure
import TaintReplay.Proofs.Replay.Growth
import TaintReplay.Proofs.Replay.Independence
import TaintReplay.Proofs.Replay.Isolation
import TaintReplay.Proofs.Replay.Notification
import TaintReplay.Proofs.Replay.Origin
import TaintReplay.Proofs.Replay.Ownership
import TaintReplay.Proofs.Replay.RegisterNames
import TaintReplay.Proofs.Replay.RegisterOrder
import TaintReplay.Proofs.Replay.Renaming
import TaintReplay.Proofs.Replay.Requests
import TaintReplay.Proofs.Replay.Standing
import TaintReplay.Proofs.Replay.Table
import TaintReplay.Proofs.Replay.Window
import TaintReplay.Proofs.Script.Json
import TaintReplay.Proofs.Session.Abandonment
import TaintReplay.Proofs.Session.Decision
import TaintReplay.Proofs.Session.Ledger
import TaintReplay.Proofs.Session.Repetition
import TaintReplay.Proofs.X86.Comparison
import TaintReplay.Rehearsal.Routine
import TaintReplay.Rehearsal.Scripted
import TaintReplay.X86.Locality
