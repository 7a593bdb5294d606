import TaintReplay.Text.Hex

/-!
# Causes of failure in tracing

An `AnalysisError` is a failure of the analysis on an instruction or a source, a `TraceError` a failure of the trace of
one instruction. Each has one text; `TraceError.cause` is the analysis failure behind it, if there is one.
-/

namespace TaintReplay

open Text

inductive AnalysisError where
  | invalidOpcode (bytes : List UInt8)
  | unknownRegister (name : String)
  deriving DecidableEq, Repr

def AnalysisError.message : AnalysisError → String
  | invalidOpcode bytes => "invalid opcode bytes " ++ spacedBytes bytes
  | unknownRegister name => "unknown register " ++ name

/-- Why one instruction could not be traced. -/
inductive TraceError where
  | decode (address : UInt64)
  | disassembly (address : UInt64) (bytes : List UInt8) (cause : AnalysisError)
  | semantics (address : UInt64) (bytes : List UInt8) (cause : AnalysisError)
  | stale
  | register (name : String)
  deriving DecidableEq, Repr

namespace TraceError

def message : TraceError → String
  | decode address => "some error decoding instruction at " ++ Text.address address.toNat
  | disassembly address bytes _ =>
    "disassembling error at " ++ Text.address address.toNat ++ " opcodes: " ++ spacedBytes bytes
  | semantics address bytes _ =>
    "building semantics failed at " ++ Text.address address.toNat ++ " opcodes: " ++ spacedBytes bytes
  | stale => "no instruction has been traced yet"
  | register name => "register " ++ name ++ " is not available"

/-- The failure of the analysis behind a failed trace. -/
def cause : TraceError → Option AnalysisError
  | disassembly _ _ cause | semantics _ _ cause => some cause
  | _ => none

end TraceError

end TaintReplay
