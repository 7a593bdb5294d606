import TaintReplay.Error
import TaintReplay.Instruction
import TaintReplay.Register

/-!
# Analysers

An `Analyzer` is what tracing needs of an analysis: it disassembles a record, evaluates it (spreading taint and
building expressions), takes taint sources, and answers questions about its state. Evaluation reads the registers of
the debugged process through a function.
-/

namespace TaintReplay

/-- The register values of the debugged process; a register may be unknown. -/
abbrev RegisterFile := Register → Option UInt64

class Analyzer (ε : Type) where
  /-- Fills in text, operands and branch of a record from its bytes. -/
  disassemble : ε → Instruction → Except AnalysisError Instruction
  /-- Spreads taint and expressions along the instruction and completes its record. -/
  evaluate : ε → Instruction → RegisterFile → Except AnalysisError (ε × Instruction)
  /-- The newest expression of the program counter, which path constraints refer to. -/
  pathSymbol : ε → Option Nat
  /-- The newest expression of a register. -/
  registerSymbol : ε → Register → Option Nat
  /-- The texts of the expressions that the record lists. -/
  expressionTexts : ε → Instruction → List String
  /-- Forgets all taint and all expressions. -/
  reset : ε → ε
  setTaint : ε → Bool → ε
  setSymbolic : ε → Bool → ε
  isTaintOn : ε → Bool
  isSymbolicOn : ε → Bool
  /-- Makes a register a source. -/
  taintRegister : ε → String → Except AnalysisError ε
  /-- Makes a range of memory a source. -/
  taintMemory : ε → UInt64 → Nat → ε
  isRegisterTainted : ε → String → Bool
  isByteTainted : ε → UInt64 → Bool
  /-- The texts of the expressions that a later state has and an earlier one has not. -/
  newTexts : ε → ε → List String

end TaintReplay
