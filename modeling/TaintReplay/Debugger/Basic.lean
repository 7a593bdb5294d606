import TaintReplay.Analysis.Analyzer
import TaintReplay.Log

/-!
# Debuggers

A `Debugger` runs the process that is traced: it knows registers, memory and functions, holds breakpoints, takes
requests, and shows comments, colours, questions and log lines to the user.
-/

namespace TaintReplay

/-- What the debugger is asked to do with the process. -/
inductive Request where
  | stepInto
  | stepOver
  | runRequests
  | clearRequests
  | resume
  | suspend
  | enableStepTrace
  | disableStepTrace
  deriving DecidableEq, Repr

def Request.name : Request → String
  | stepInto => "step_into"
  | stepOver => "step_over"
  | runRequests => "run_requests"
  | clearRequests => "clear_requests"
  | resume => "continue"
  | suspend => "suspend"
  | enableStepTrace => "enable_step_trace"
  | disableStepTrace => "disable_step_trace"

/-- The user's answer to a question. -/
inductive Answer where
  | yes
  | no
  | cancel
  deriving DecidableEq, Repr

class Debugger (η : Type) where
  register : η → RegisterFile
  /-- The readable bytes from an address on, no more than asked for. -/
  read : η → UInt64 → Nat → List UInt8
  instructionLength : η → UInt64 → Option Nat
  currentThread : η → UInt64
  hasBreakpoint : η → UInt64 → Bool
  addBreakpoint : η → UInt64 → η
  removeBreakpoint : η → UInt64 → η
  request : η → Request → η
  ask : η → String → η × Answer
  setColor : η → UInt64 → UInt32 → η
  addComment : η → UInt64 → String → η
  /-- The name of the function that contains an address. -/
  functionName : η → UInt64 → Option String
  /-- Renames the function that contains an address, and says whether it did. -/
  renameFunction : η → UInt64 → String → η × Bool
  say : η → Line → η

end TaintReplay
