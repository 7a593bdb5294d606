import TaintReplay.Analysis.Analyzer
import TaintReplay.Analysis.Location
import TaintReplay.X86.Text

/-!
# Data flow of an instruction

`resolve` finds out what the operands of a decoded instruction are and where they live; `Effect.of` classifies how the
instruction moves data, and `Flow.of` names the locations that it reads from and writes to.
-/

namespace TaintReplay

namespace X86

/-- The value of a register in an address. The program counter is already at the next instruction. -/
def Reg.addressValue (r : Reg) (next : UInt64) (registers : RegisterFile) : Option UInt64 :=
  if r.full = .counter then some next else registers r.full

/-- The effective address, if the registers it needs are known. -/
def Address.effective (a : Address) (next : UInt64) (registers : RegisterFile) : Option UInt64 :=
  match a with
  | absolute value => some value
  | sum base index displacement => do
    let start ← match base with
      | some r => r.addressValue next registers
      | none => some 0
    let offset ← match index with
      | some (r, scale) => (r.addressValue next registers).map (· * UInt64.ofNat scale)
      | none => some 0
    return start + offset + UInt64.ofInt displacement

end X86

/-- What one operand is and where it lives. Without registers no address is worked out. The distance of a conditional
branch stands for the address it leads to. -/
def resolveOperand (d : X86.Instruction) (next : UInt64) (registers : Option RegisterFile) :
    X86.Operand → OperandKind × Location
  | .register r => (.register r.name, .register r.full)
  | .masked _ _ _ => (.immediate 0, .unknown)
  | .immediate value => (.immediate (UInt64.ofInt value), .constant)
  | .relative distance =>
    let value := UInt64.ofInt distance
    (.immediate (if d.opcode.branch?.isSome then next + value else value), .constant)
  | .memory _ _ a =>
    match registers.bind (a.effective next ·) with
    | some address => (.memory (some address) d.memorySize, .memory address d.memorySize)
    | none => (.memory none d.memorySize, .unknown)

/-- What the operands are and where they live. -/
def resolve (d : X86.Instruction) (next : UInt64) (registers : Option RegisterFile) : List (OperandKind × Location) :=
  d.operands.map (resolveOperand d next registers)

/-- How an instruction moves data between its operands. -/
inductive Effect where
  | assign
  | address
  | update
  | compare
  | clear
  | push
  | pop
  | branch (b : X86.Branch)
  | untracked
  deriving DecidableEq, Repr

/-- The effect of an operation on operands that live at the given places. Subtracting something from itself, and
likewise the exclusive or, clears it. -/
def Effect.of (opcode : X86.Opcode) (locations : List Location) : Effect :=
  match opcode with
  | .branch b => .branch b
  | .mov | .movzx | .movsx | .movsxd => .assign
  | .lea => .address
  | .cmp | .test => .compare
  | .xor | .sub =>
    match locations with
    | [first, second] => if first = second then .clear else .update
    | _ => .update
  | .push => .push
  | .pop => .pop
  | .jmp | .call | .ret | .nop => .untracked
  | .plain _ => .update

/-- The locations an instruction reads from and those it writes to, in order. -/
structure Flow where
  sources : List Location := []
  destinations : List Location := []
  deriving DecidableEq, Repr

/-- The flags, which most operations write. -/
def flagsLocation : Location := .register .flags

/-- The registers that make up the addresses of the memory operands. -/
def addressRegisters (d : X86.Instruction) : List Location :=
  d.operands.flatMap fun
    | .memory _ _ a => a.registers.map fun r => .register r.full
    | _ => []

/-- The number of bytes that a push or a pop moves. -/
def stackSlot : Nat := 8

/-- The flow of an effect on operands that live at the given places, with the stack pointer at `stack`. -/
def Effect.flow (effect : Effect) (d : X86.Instruction) (locations : List Location) (stack : UInt64) : Flow :=
  let first := locations.take 1
  match effect with
  | assign => { sources := locations.drop 1, destinations := first }
  | address => { sources := addressRegisters d, destinations := first }
  | update => { sources := locations, destinations := first ++ [flagsLocation] }
  | compare => { sources := locations, destinations := [flagsLocation] }
  | clear => { destinations := first ++ [flagsLocation] }
  | push => { sources := first, destinations := [.memory (stack - UInt64.ofNat stackSlot) stackSlot] }
  | pop => { sources := [.memory stack stackSlot], destinations := first }
  | branch b => { sources := flagsLocation :: if b.usesCounter then [.register .rcx] else [] }
  | untracked => {}

/-- The flow of a decoded instruction in a register file. An unknown stack pointer counts as zero. -/
def Flow.of (d : X86.Instruction) (next : UInt64) (registers : RegisterFile) : Flow :=
  let locations := (resolve d next (some registers)).map (·.2)
  (Effect.of d.opcode locations).flow d locations ((registers .rsp).getD 0)

end TaintReplay
