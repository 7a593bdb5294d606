import TaintReplay.Session.Trace

/-!
# Commands of the user

Beside the events, a session takes commands: make a register or a range of memory a source, trace the current
instruction again, run an action at an address, and open step tracing again after it was declined.
-/

namespace TaintReplay

open Text

namespace Session

variable {α ε η : Type} [Analyzer ε] [Debugger η]

/-- Traces the instruction at the program counter again. -/
def reanalyze (s : Session α ε η) : Session α ε η × Outcome :=
  match Debugger.register s.debugger .counter with
  | none =>
    let cause := TraceError.register Register.counter.name
    (s.say .warn .events ("[!] " ++ cause.message), .abandoned cause)
  | some pc =>
    let s := s.inform .events ("[+] Reanalyzing instruction at " ++ address pc.toNat)
    s.trace pc (Debugger.currentThread s.debugger)

/-- Makes a register a source and arms tracing. -/
def taintRegister (s : Session α ε η) (name : String) : Except AnalysisError (Session α ε η × Outcome) :=
  match Analyzer.taintRegister s.analysis name with
  | .error cause => .error cause
  | .ok analysis => .ok (s.advance analysis).arm.reanalyze

/-- Makes a range of memory a source and arms tracing. -/
def taintMemory (s : Session α ε η) (start : UInt64) (length : Nat) : Session α ε η × Outcome :=
  (s.advance (Analyzer.taintMemory s.analysis start length)).arm.reanalyze

/-- Opens step tracing again, with a new window. -/
def enableStepTrace (s : Session α ε η) : Session α ε η :=
  { s with progress := { s.progress with declined := false, window := 0 } }.request .enableStepTrace

/-- Has an action wait for an address. -/
def register (s : Session α ε η) (a : PendingAction α) : Session α ε η :=
  { s with progress := { s.progress with pending := s.progress.pending.register a } }

/-- Breaks at an address and runs an action there. A breakpoint that is there already counts as the user's. -/
def breakAndRun (s : Session α ε η) (address : UInt64) (action : α) : Session α ε η :=
  let keepsBreakpoint := Debugger.hasBreakpoint s.debugger address
  let debugger := if keepsBreakpoint then s.debugger else Debugger.addBreakpoint s.debugger address
  { s with debugger }.register { address, action, keepsBreakpoint }

end Session

end TaintReplay
