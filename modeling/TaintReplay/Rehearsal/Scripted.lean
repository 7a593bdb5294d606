import TaintReplay.Analysis.Analyzer

/-!
# A scripted analysis

A `Scripted` analysis does not look at instructions: a table says for each address what the analysis finds there, and
where it fails. It records what it was asked to do, so that the sessions around it can be observed.
-/

namespace TaintReplay.Rehearsal

open Text

/-- The part of the analysis that fails at an address. -/
inductive FailingPart where
  | disassembly
  | evaluation
  deriving DecidableEq, Repr

/-- What the analysis finds at an address. -/
structure Finding where
  address : UInt64
  failure : Option FailingPart := none
  text : Option String := none
  branch : Bool := false
  target : Option UInt64 := none
  tainted : Bool := false
  symbolized : Bool := false
  taken : Bool := false
  /-- The places of the operands that are tainted. -/
  taintedOperands : List Nat := []
  /-- Does a symbolic branch leave the program counter without an expression? -/
  keepsCounter : Bool := false
  expressions : List String := []

structure Scripted where
  table : List Finding := []
  taintOn : Bool := false
  symbolicOn : Bool := false
  /-- The addresses of the evaluated instructions. -/
  evaluated : Array UInt64 := #[]
  resets : Nat := 0
  counterSymbol : Option Nat := none
  registers : List String := []
  ranges : List (UInt64 × Nat) := []

namespace Scripted

/-- The finding at an address; the last row of the table counts. -/
def finding (s : Scripted) (address : UInt64) : Finding :=
  (s.table.reverse.find? (·.address == address)).getD { address }

def disassemble (s : Scripted) (i : Instruction) : Except AnalysisError Instruction :=
  let f := s.finding i.address
  if f.failure = some .disassembly then .error (.invalidOpcode i.opcode)
  else .ok { i with
    text := f.text.getD ("insn_" ++ hex i.address.toNat)
    branch := f.branch
    target := f.target
    operands := [{ kind := .register "rax" }, { kind := .memory (some i.address) 4 }, { kind := .immediate 7 }] }

def evaluate (s : Scripted) (i : Instruction) : Except AnalysisError (Scripted × Instruction) :=
  let f := s.finding i.address
  if f.failure = some .evaluation then .error (.invalidOpcode i.opcode)
  else
    let evaluated := s.evaluated.push i.address
    let decided := f.branch && f.symbolized && !f.keepsCounter
    let operands := i.operands.mapIdx fun n o => { o with tainted := f.taintedOperands.contains n }
    .ok ({ s with evaluated, counterSymbol := if decided then some evaluated.size else s.counterSymbol },
      { i with tainted := f.tainted, symbolized := f.symbolized, taken := f.taken, operands })

/-- A name that the analysis does not know. -/
def unknownName : String := "bogus"

instance : Analyzer Scripted where
  disassemble := disassemble
  evaluate s i _ := s.evaluate i
  pathSymbol := counterSymbol
  registerSymbol _ _ := none
  expressionTexts s i := (s.finding i.address).expressions
  reset s := { s with resets := s.resets + 1, counterSymbol := none, registers := [], ranges := [] }
  setTaint s on := { s with taintOn := on }
  setSymbolic s on := { s with symbolicOn := on }
  isTaintOn := taintOn
  isSymbolicOn := symbolicOn
  taintRegister s name :=
    if name = unknownName then .error (.unknownRegister name) else .ok { s with registers := s.registers ++ [name] }
  taintMemory s start length := { s with ranges := s.ranges ++ [(start, length)] }
  isRegisterTainted s name := s.registers.contains name
  isByteTainted s a := s.ranges.any fun (start, length) => start ≤ a && a.toNat < start.toNat + length
  newTexts _ _ := []

end Scripted

end TaintReplay.Rehearsal
