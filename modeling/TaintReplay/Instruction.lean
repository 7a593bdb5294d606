import TaintReplay.Text.Hex

/-!
# Traced instructions

An `Instruction` is the record that tracing keeps of one executed instruction: where it stood, its bytes and text, its
operands, and what the analysis found out about it. `successors` gives the two ways a conditional branch may go, the one
taken first.
-/

namespace TaintReplay

open Text

/-- The number of bytes that are fetched for one instruction. -/
def maxInstructionLength : Nat := 15

/-- What an operand is. The address of memory is missing where it could not be worked out. -/
inductive OperandKind where
  | register (name : String)
  | immediate (value : UInt64)
  | memory (address : Option UInt64) (size : Nat)
  deriving DecidableEq, Repr

def OperandKind.render : OperandKind → String
  | register name => name
  | immediate value => Text.address value.toNat
  | memory (some a) size => "[" ++ Text.address a.toNat ++ "]:" ++ toString size
  | memory none size => "[?]:" ++ toString size

structure Operand where
  kind : OperandKind
  tainted : Bool := false
  trusted : Bool := false
  deriving DecidableEq, Repr

structure Instruction where
  address : UInt64
  thread : UInt64
  opcode : List UInt8 := []
  text : String := ""
  operands : List Operand := []
  /-- The address behind the instruction. -/
  next : UInt64 := 0
  /-- Where a conditional branch leads. -/
  target : Option UInt64 := none
  tainted : Bool := false
  symbolized : Bool := false
  /-- Is it a conditional branch? -/
  branch : Bool := false
  taken : Bool := false
  /-- The numbers of the expressions that the instruction gave rise to. -/
  expressions : List Nat := []
  deriving DecidableEq, Repr

namespace Instruction

/-- The record with its bytes, of which no more are kept than an instruction can have. -/
def withOpcode (i : Instruction) (bytes : List UInt8) : Instruction :=
  let opcode := bytes.take maxInstructionLength
  { i with opcode, next := i.address + UInt64.ofNat opcode.length }

/-- The operands whose value derives from a taint source. -/
def controlled (i : Instruction) : List Operand := i.operands.filter (·.tainted)

/-- The record with every operand trusted. -/
def trust (i : Instruction) : Instruction :=
  { i with operands := i.operands.map fun o => { o with trusted := true } }

/-- The successors of a conditional branch, first the one that is reached, then the one that is not. -/
def successors (i : Instruction) : Option (UInt64 × UInt64) :=
  i.target.map fun target => if i.taken then (target, i.next) else (i.next, target)

def render (i : Instruction) : String :=
  Text.address i.address.toNat ++ ": " ++ i.text ++ " (Thread id: " ++ toString i.thread ++ ")"

end Instruction

end TaintReplay
