/-!
# Registers and the names that alias them

A full register is one of the sixteen general registers, the program counter, the flags, or any other register, known
by its name only. `Alias.table` lists every name of a full register or of a part of one; `Register.ofName` sends a name
to the full register it lives in, and a name outside the table to the register of that name. `ofName_name_ofName` says
that the name of a full register leads back to it.
-/

namespace TaintReplay

/-- A full register. The general ones are numbered as instructions encode them. -/
inductive Register where
  | general (n : Fin 16)
  | counter
  | flags
  | other (name : String)
  deriving DecidableEq, Repr, Inhabited

namespace Register

/-- The names of the general registers, in the order of their numbers. -/
def generalNames : List String :=
  ["rax", "rcx", "rdx", "rbx", "rsp", "rbp", "rsi", "rdi", "r8", "r9", "r10", "r11", "r12", "r13", "r14", "r15"]

def name : Register → String
  | general n => generalNames.getD n ""
  | counter => "rip"
  | flags => "rflags"
  | other name => name

/-- The count register, which the loop instructions test. -/
abbrev rcx : Register := general 1

/-- The stack pointer. -/
abbrev rsp : Register := general 4

end Register

/-- A name of a full register or of a part of one, with the number of bytes it covers. -/
structure Alias where
  name : String
  full : Register
  size : Nat
  deriving DecidableEq, Repr

namespace Alias

/-- The names of one full register, from all eight bytes down to single ones. -/
def family (full : Register) (names : List String) : List Alias :=
  List.zipWith (fun name size => ⟨name, full, size⟩) names [8, 4, 2, 1, 1]

/-- Every alias. -/
def table : List Alias :=
  family (.general 0) ["rax", "eax", "ax", "al", "ah"] ++
  family (.general 3) ["rbx", "ebx", "bx", "bl", "bh"] ++
  family (.general 1) ["rcx", "ecx", "cx", "cl", "ch"] ++
  family (.general 2) ["rdx", "edx", "dx", "dl", "dh"] ++
  family (.general 6) ["rsi", "esi", "si", "sil"] ++
  family (.general 7) ["rdi", "edi", "di", "dil"] ++
  family (.general 5) ["rbp", "ebp", "bp", "bpl"] ++
  family (.general 4) ["rsp", "esp", "sp", "spl"] ++
  family (.general 8) ["r8", "r8d", "r8w", "r8b"] ++
  family (.general 9) ["r9", "r9d", "r9w", "r9b"] ++
  family (.general 10) ["r10", "r10d", "r10w", "r10b"] ++
  family (.general 11) ["r11", "r11d", "r11w", "r11b"] ++
  family (.general 12) ["r12", "r12d", "r12w", "r12b"] ++
  family (.general 13) ["r13", "r13d", "r13w", "r13b"] ++
  family (.general 14) ["r14", "r14d", "r14w", "r14b"] ++
  family (.general 15) ["r15", "r15d", "r15w", "r15b"] ++
  family .counter ["rip", "eip"] ++
  family .flags ["rflags", "eflags"]

/-- The alias of a name, if the name is known. -/
def find? (name : String) : Option Alias := table.find? (·.name == name)

end Alias

namespace Register

/-- The full register that a name belongs to; an unknown name is a register of its own. -/
def ofName (name : String) : Register :=
  match Alias.find? name with
  | some a => a.full
  | none => other name

/-- The number of bytes a name covers; an unknown register counts as eight bytes. -/
def sizeOfName (name : String) : Nat :=
  match Alias.find? name with
  | some a => a.size
  | none => 8

theorem ofName_name_of_mem_table : ∀ a ∈ Alias.table, ofName a.full.name = a.full := by
  decide +kernel

/-- The name of the full register behind a name leads back to that register. -/
theorem ofName_name_ofName (name : String) : ofName (ofName name).name = ofName name := by
  unfold ofName
  cases h : Alias.find? name with
  | none => simp [Register.name, h]
  | some a => simpa [ofName] using ofName_name_of_mem_table a (List.mem_of_find?_eq_some h)

end Register

/-- The bits of the flags register that branches look at. -/
inductive Flag where
  | carry
  | parity
  | zero
  | sign
  | overflow
  deriving DecidableEq, Repr

/-- The position of a flag in the flags register. -/
def Flag.bit : Flag → UInt64
  | carry => 0
  | parity => 2
  | zero => 6
  | sign => 7
  | overflow => 11

/-- Is the flag set in this value of the flags register? -/
def Flag.isSet (flag : Flag) (flags : UInt64) : Bool := flags &&& (1 <<< flag.bit) != 0

end TaintReplay
