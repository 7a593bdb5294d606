import TaintReplay.X86.Opcode
import TaintReplay.X86.Reg

/-!
# Operands and instructions

A decoded `X86.Instruction` has an operation, its explicit operands in the order of assembly text, the marks printed in
front of the mnemonic, and its length in bytes. A memory operand has an access size, if the encoding fixes one, the
segment that its text shows, and an `Address`.
-/

namespace TaintReplay.X86

/-- The segments whose names appear in texts. -/
inductive Segment where
  | es
  | ds
  | fs
  | gs
  deriving DecidableEq, Repr

def Segment.name : Segment → String
  | es => "es"
  | ds => "ds"
  | fs => "fs"
  | gs => "gs"

/-- An addressing form: a fixed address, or a sum of a base, a scaled index and a displacement. -/
inductive Address where
  | absolute (value : UInt64)
  | sum (base : Option Reg) (index : Option (Reg × Nat)) (displacement : Int)
  deriving DecidableEq, Repr

/-- The registers that an addressing form reads, in the order of the encoding. -/
def Address.registers : Address → List Reg
  | absolute _ => []
  | sum base index _ => base.toList ++ (index.map Prod.fst).toList

inductive Operand where
  | register (r : Reg)
  /-- A vector register of which a mask selects the elements. -/
  | masked (r : Reg) (mask : Nat) (zeroing : Bool)
  | immediate (value : Int)
  /-- A distance from the next instruction. -/
  | relative (distance : Int)
  | memory (size : Option Nat) (segment : Option Segment) (address : Address)
  deriving DecidableEq, Repr

/-- A decoded instruction. -/
structure Instruction where
  opcode : Opcode
  operands : List Operand
  /-- Words in front of the mnemonic: `lock`, `rep` and their like. -/
  marks : List String
  length : Nat
  deriving DecidableEq, Repr

namespace Instruction

/-- The size of the instruction's memory access, if it has one and the encoding fixes its size. -/
def accessSize? (i : Instruction) : Option Nat :=
  i.operands.findSome? fun
    | .memory size _ _ => size
    | _ => none

/-- The size of the first operand that is a register. -/
def registerSize? (i : Instruction) : Option Nat :=
  i.operands.findSome? fun
    | .register r => some r.size
    | _ => none

/-- The size that memory operands are taken to have: that of the access, else that of a register, else eight. -/
def memorySize (i : Instruction) : Nat :=
  (i.accessSize?.or i.registerSize?).getD 8

end Instruction

end TaintReplay.X86
