import TaintReplay.Register

/-!
# The registers of x86-64 instructions

An encoded register is a bank and an index in it. `Reg.name` is its name in assembly text and `Reg.full` the full
register it lives in; `Reg.size` is the number of bytes its name covers.
-/

namespace TaintReplay.X86

/-- The register banks. Without a REX byte the indices 4 to 7 of the byte bank are the high bytes of the first four. -/
inductive Bank where
  | legacyByte
  | byte
  | word
  | dword
  | qword
  | counter32
  | counter64
  | mmx
  | xmm
  | ymm
  | zmm
  | mask
  | float
  | segment
  | control
  | debug
  deriving DecidableEq, Repr

/-- A register as an instruction encodes it. -/
structure Reg where
  bank : Bank
  index : Nat
  deriving DecidableEq, Repr

namespace Reg

/-- The names of a bank's numbered registers whose first eight have names of their own. -/
private def numbered (first : List String) (suffix : String) (index : Nat) : String :=
  first.getD index ("r" ++ toString index ++ suffix)

def name (r : Reg) : String :=
  match r.bank with
  | .legacyByte => ["al", "cl", "dl", "bl", "ah", "ch", "dh", "bh"].getD r.index ""
  | .byte => numbered ["al", "cl", "dl", "bl", "spl", "bpl", "sil", "dil"] "b" r.index
  | .word => numbered ["ax", "cx", "dx", "bx", "sp", "bp", "si", "di"] "w" r.index
  | .dword => numbered ["eax", "ecx", "edx", "ebx", "esp", "ebp", "esi", "edi"] "d" r.index
  | .qword => numbered ["rax", "rcx", "rdx", "rbx", "rsp", "rbp", "rsi", "rdi"] "" r.index
  | .counter32 => "eip"
  | .counter64 => "rip"
  | .mmx => "mm" ++ toString r.index
  | .xmm => "xmm" ++ toString r.index
  | .ymm => "ymm" ++ toString r.index
  | .zmm => "zmm" ++ toString r.index
  | .mask => "k" ++ toString r.index
  | .float => "st(" ++ toString r.index ++ ")"
  | .segment => ["es", "cs", "ss", "ds", "fs", "gs"].getD r.index ""
  | .control => "cr" ++ toString r.index
  | .debug => "dr" ++ toString r.index

/-- The full register that holds the encoded one. -/
def full (r : Reg) : Register :=
  match r.bank with
  | .legacyByte => .general ⟨r.index % 4 % 16, Nat.mod_lt _ (Nat.succ_pos 15)⟩
  | .byte | .word | .dword | .qword => .general ⟨r.index % 16, Nat.mod_lt _ (Nat.succ_pos 15)⟩
  | .counter32 | .counter64 => .counter
  | _ => .other r.name

/-- The number of bytes the register covers; a register outside the general ones counts as eight bytes. -/
def size (r : Reg) : Nat :=
  match r.bank with
  | .legacyByte | .byte => 1
  | .word => 2
  | .dword | .counter32 => 4
  | _ => 8

/-- On the registers of each bank, the encoded and the textual way to the full register agree. -/
theorem full_eq_ofName_general : ∀ bank ∈ [Bank.byte, .word, .dword, .qword], ∀ index < 16,
    (Reg.mk bank index).full = Register.ofName (Reg.mk bank index).name := by
  decide +kernel

theorem full_eq_ofName_legacyByte : ∀ index < 8,
    (Reg.mk .legacyByte index).full = Register.ofName (Reg.mk .legacyByte index).name := by
  decide +kernel

end Reg

end TaintReplay.X86
