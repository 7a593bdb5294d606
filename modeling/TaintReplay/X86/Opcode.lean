/-!
# Operations

`Opcode` tells apart the operations whose data flow differs; every other operation is `plain` and carries only its
mnemonic. Conditional branches carry the condition that they test.
-/

namespace TaintReplay.X86

/-- The sixteen conditions on the flags, in the order of their encoding. -/
inductive Condition where
  | overflow
  | notOverflow
  | below
  | notBelow
  | zero
  | notZero
  | notAbove
  | above
  | sign
  | notSign
  | parity
  | notParity
  | less
  | notLess
  | notGreater
  | greater
  deriving DecidableEq, Repr

namespace Condition

/-- All conditions, in the order of their encoding. -/
def all : List Condition :=
  [overflow, notOverflow, below, notBelow, zero, notZero, notAbove, above, sign, notSign, parity, notParity, less,
    notLess, notGreater, greater]

/-- The ending of the mnemonics of jumps and moves under the condition. -/
def suffix : Condition → String
  | overflow => "o"
  | notOverflow => "no"
  | below => "b"
  | notBelow => "nb"
  | zero => "z"
  | notZero => "nz"
  | notAbove => "na"
  | above => "a"
  | sign => "s"
  | notSign => "ns"
  | parity => "p"
  | notParity => "np"
  | less => "l"
  | notLess => "ge"
  | notGreater => "le"
  | greater => "g"

/-- The ending of the mnemonics that store the condition as a byte. -/
def storedSuffix : Condition → String
  | notBelow => "ae"
  | notAbove => "be"
  | c => c.suffix

end Condition

/-- What a conditional branch tests: a condition on the flags, or the count register. -/
inductive Branch where
  | on (c : Condition)
  | counterZero
  | loop
  | loopZero
  | loopNotZero
  deriving DecidableEq, Repr

namespace Branch

def mnemonic : Branch → String
  | on c => "j" ++ c.suffix
  | counterZero => "jrcxz"
  | loop => "loop"
  | loopZero => "loopz"
  | loopNotZero => "loopnz"

/-- Does the branch look at the count register? -/
def usesCounter : Branch → Bool
  | on _ => false
  | _ => true

end Branch

inductive Opcode where
  | mov
  | movzx
  | movsx
  | movsxd
  | lea
  | cmp
  | test
  | xor
  | sub
  | push
  | pop
  | jmp
  | call
  | ret
  | nop
  | branch (b : Branch)
  | plain (mnemonic : String)
  deriving DecidableEq, Repr

namespace Opcode

def mnemonic : Opcode → String
  | mov => "mov"
  | movzx => "movzx"
  | movsx => "movsx"
  | movsxd => "movsxd"
  | lea => "lea"
  | cmp => "cmp"
  | test => "test"
  | xor => "xor"
  | sub => "sub"
  | push => "push"
  | pop => "pop"
  | jmp => "jmp"
  | call => "call"
  | ret => "ret"
  | nop => "nop"
  | branch b => b.mnemonic
  | plain mnemonic => mnemonic

/-- The branch of a conditional branch. -/
def branch? : Opcode → Option Branch
  | branch b => some b
  | _ => none

end Opcode

end TaintReplay.X86
