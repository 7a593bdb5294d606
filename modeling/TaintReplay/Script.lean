import TaintReplay.Image
import TaintReplay.Options
import TaintReplay.Session.Event

/-!
# Scripts

A `Script` is a list of steps that drive a session: events of the debugger, changes of registers, memory, functions and
breakpoints, new sources, and answers to questions. It may bring its own options.
-/

namespace TaintReplay

inductive Step where
  | event (e : Event)
  | registers (values : List (String × UInt64))
  | write (address : UInt64) (bytes : List UInt8)
  | function (f : FunctionRange)
  | setBreakpoint (address : UInt64)
  /-- Makes a register a source once execution reaches the address. -/
  | breakAndTaint (address : UInt64) (register : String)
  | taintRegister (register : String)
  | taintMemory (start : UInt64) (length : UInt64)
  | answer (yes : Bool)
  | enableStepTrace
  deriving DecidableEq, Repr

structure Script where
  options : Option Options := none
  steps : List Step
  deriving DecidableEq, Repr

end TaintReplay
