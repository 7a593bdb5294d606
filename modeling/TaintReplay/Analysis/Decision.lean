import TaintReplay.Analysis.Analyzer
import TaintReplay.X86.Opcode

/-!
# Branch decisions

`Condition.holds` says for a value of the flags register whether a condition holds, and `Branch.isTaken` for the
registers whether a conditional branch is taken. An unknown register counts as zero. The loop instructions lower the
count register before they test it.
-/

namespace TaintReplay.X86

/-- Does the condition hold for these flags? -/
def Condition.holds (flags : UInt64) : Condition → Bool
  | overflow => Flag.overflow.isSet flags
  | notOverflow => !Flag.overflow.isSet flags
  | below => Flag.carry.isSet flags
  | notBelow => !Flag.carry.isSet flags
  | zero => Flag.zero.isSet flags
  | notZero => !Flag.zero.isSet flags
  | notAbove => Flag.carry.isSet flags || Flag.zero.isSet flags
  | above => !Flag.carry.isSet flags && !Flag.zero.isSet flags
  | sign => Flag.sign.isSet flags
  | notSign => !Flag.sign.isSet flags
  | parity => Flag.parity.isSet flags
  | notParity => !Flag.parity.isSet flags
  | less => Flag.sign.isSet flags != Flag.overflow.isSet flags
  | notLess => Flag.sign.isSet flags == Flag.overflow.isSet flags
  | notGreater => Flag.zero.isSet flags || Flag.sign.isSet flags != Flag.overflow.isSet flags
  | greater => !Flag.zero.isSet flags && Flag.sign.isSet flags == Flag.overflow.isSet flags

/-- Is the branch taken for these flags and this count? -/
def Branch.decide (flags count : UInt64) : Branch → Bool
  | on c => c.holds flags
  | counterZero => count == 0
  | loop => count != 1
  | loopZero => count != 1 && Flag.zero.isSet flags
  | loopNotZero => count != 1 && !Flag.zero.isSet flags

/-- Is the branch taken in this register file? -/
def Branch.isTaken (b : Branch) (registers : RegisterFile) : Bool :=
  b.decide ((registers .flags).getD 0) ((registers .rcx).getD 0)

end TaintReplay.X86
