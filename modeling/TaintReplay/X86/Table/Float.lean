import TaintReplay.X86.Row

/-!
# Floating-point stack opcodes

The table of the opcode bytes `d8` to `df`. The upper two bits of the ModRM byte tell operations on memory from
operations between entries of the stack; the top of the stack is written as an operand.
-/

namespace TaintReplay.X86.Table

/-- The top of the stack. -/
def top : Slot := .fixed ⟨.float, 0⟩

/-- An operation that brings memory of so many bytes to the top of the stack. -/
private def load (byte : UInt8) (extension size : Nat) (mnemonic : String) : Row :=
  (row byte (.plain mnemonic) [top, .memory (some size)]).under [.extension extension, .memory]

/-- An operation that writes the top of the stack to memory. -/
private def store (byte : UInt8) (extension size : Nat) (mnemonic : String) : Row :=
  (row byte (.plain mnemonic) [.memory (some size), top]).under [.extension extension, .memory]

/-- An operation on memory alone. -/
private def memoryOnly (byte : UInt8) (extension : Nat) (size : Option Nat) (mnemonic : String) : Row :=
  (row byte (.plain mnemonic) [.memory size]).under [.extension extension, .memory]

/-- An operation of the top with an entry of the stack. -/
private def toTop (byte : UInt8) (extension : Nat) (mnemonic : String) : Row :=
  (row byte (.plain mnemonic) [top, .stackEntry]).under [.extension extension, .register]

/-- An operation of an entry of the stack with the top. -/
private def toEntry (byte : UInt8) (extension : Nat) (mnemonic : String) : Row :=
  (row byte (.plain mnemonic) [.stackEntry, top]).under [.extension extension, .register]

/-- An operation on an entry of the stack alone. -/
private def entryOnly (byte : UInt8) (extension : Nat) (mnemonic : String) : Row :=
  (row byte (.plain mnemonic) [.stackEntry]).under [.extension extension, .register]

private def bare (byte modRM : UInt8) (mnemonic : String) : Row := (row byte (.plain mnemonic) []).under [.modRM modRM]

/-- The eight arithmetic operations. -/
private def stackArithmetic : List String := ["fadd", "fmul", "fcom", "fcomp", "fsub", "fsubr", "fdiv", "fdivr"]

/-- The eight arithmetic operations on integers. -/
private def stackIntegers : List String := ["fiadd", "fimul", "ficom", "ficomp", "fisub", "fisubr", "fidiv", "fidivr"]

/-- The opcodes `d8` to `df`. -/
def float : List Row :=
  stackArithmetic.mapIdx (load 0xd8 · 4 ·) ++ stackArithmetic.mapIdx (toTop 0xd8 · ·) ++
  [load 0xd9 0 4 "fld", store 0xd9 2 4 "fst", store 0xd9 3 4 "fstp", memoryOnly 0xd9 4 none "fldenv",
    memoryOnly 0xd9 5 (some 2) "fldcw", memoryOnly 0xd9 6 none "fnstenv", memoryOnly 0xd9 7 (some 2) "fnstcw",
    toTop 0xd9 0 "fld", toTop 0xd9 1 "fxch", bare 0xd9 0xd0 "fnop", toEntry 0xd9 3 "fstpnce",
    bare 0xd9 0xe0 "fchs", bare 0xd9 0xe1 "fabs", bare 0xd9 0xe4 "ftst", bare 0xd9 0xe5 "fxam", bare 0xd9 0xe8 "fld1",
    bare 0xd9 0xe9 "fldl2t", bare 0xd9 0xea "fldl2e", bare 0xd9 0xeb "fldpi", bare 0xd9 0xec "fldlg2",
    bare 0xd9 0xed "fldln2", bare 0xd9 0xee "fldz", bare 0xd9 0xf0 "f2xm1", bare 0xd9 0xf1 "fyl2x",
    bare 0xd9 0xf2 "fptan", bare 0xd9 0xf3 "fpatan", bare 0xd9 0xf4 "fxtract", bare 0xd9 0xf5 "fprem1",
    bare 0xd9 0xf6 "fdecstp", bare 0xd9 0xf7 "fincstp", bare 0xd9 0xf8 "fprem", bare 0xd9 0xf9 "fyl2xp1",
    bare 0xd9 0xfa "fsqrt", bare 0xd9 0xfb "fsincos", bare 0xd9 0xfc "frndint", bare 0xd9 0xfd "fscale",
    bare 0xd9 0xfe "fsin", bare 0xd9 0xff "fcos"] ++
  stackIntegers.mapIdx (load 0xda · 4 ·) ++
  [toTop 0xda 0 "fcmovb", toTop 0xda 1 "fcmove", toTop 0xda 2 "fcmovbe", toTop 0xda 3 "fcmovu",
    bare 0xda 0xe9 "fucompp",
    load 0xdb 0 4 "fild", store 0xdb 1 4 "fisttp", store 0xdb 2 4 "fist", store 0xdb 3 4 "fistp", load 0xdb 5 10 "fld",
    store 0xdb 7 10 "fstp", toTop 0xdb 0 "fcmovnb", toTop 0xdb 1 "fcmovne", toTop 0xdb 2 "fcmovnbe",
    toTop 0xdb 3 "fcmovnu", bare 0xdb 0xe0 "feni8087_nop", bare 0xdb 0xe1 "fdisi8087_nop", bare 0xdb 0xe2 "fnclex",
    bare 0xdb 0xe3 "fninit", bare 0xdb 0xe4 "fsetpm287_nop", toTop 0xdb 5 "fucomi", toTop 0xdb 6 "fcomi"] ++
  stackArithmetic.mapIdx (load 0xdc · 8 ·) ++
  [toEntry 0xdc 0 "fadd", toEntry 0xdc 1 "fmul", toTop 0xdc 2 "fcom", toTop 0xdc 3 "fcomp", toEntry 0xdc 4 "fsubr",
    toEntry 0xdc 5 "fsub", toEntry 0xdc 6 "fdivr", toEntry 0xdc 7 "fdiv",
    load 0xdd 0 8 "fld", store 0xdd 1 8 "fisttp", store 0xdd 2 8 "fst", store 0xdd 3 8 "fstp",
    memoryOnly 0xdd 4 none "frstor", memoryOnly 0xdd 6 none "fnsave", memoryOnly 0xdd 7 (some 2) "fnstsw",
    entryOnly 0xdd 0 "ffree", toTop 0xdd 1 "fxch", toEntry 0xdd 2 "fst", toEntry 0xdd 3 "fstp", toTop 0xdd 4 "fucom",
    toTop 0xdd 5 "fucomp"] ++
  stackIntegers.mapIdx (load 0xde · 2 ·) ++
  [toEntry 0xde 0 "faddp", toEntry 0xde 1 "fmulp", toTop 0xde 2 "fcomp", bare 0xde 0xd9 "fcompp",
    toEntry 0xde 4 "fsubrp", toEntry 0xde 5 "fsubp", toEntry 0xde 6 "fdivrp", toEntry 0xde 7 "fdivp",
    load 0xdf 0 2 "fild", store 0xdf 1 2 "fisttp", store 0xdf 2 2 "fist", store 0xdf 3 2 "fistp", load 0xdf 4 10 "fbld",
    load 0xdf 5 8 "fild", store 0xdf 6 10 "fbstp", store 0xdf 7 8 "fistp", entryOnly 0xdf 0 "ffreep",
    toTop 0xdf 1 "fxch", toEntry 0xdf 2 "fstp", toEntry 0xdf 3 "fstp",
    (row 0xdf (.plain "fnstsw") [.fixed ⟨.word, 0⟩]).under [.modRM 0xe0],
    toTop 0xdf 5 "fucomip", toTop 0xdf 6 "fcomip"]

end TaintReplay.X86.Table
