import TaintReplay.X86.Operand

/-!
# Rows of the instruction tables

A `Row` says what one opcode byte means: the operation, a `Slot` for each operand, and `Guard`s that the other parts of
the encoding have to meet. The tables are lists of rows, of which the first that fits decides.
-/

namespace TaintReplay.X86

/-- The width of a general operand. -/
inductive Width where
  | byte
  | word
  | dword
  | qword
  /-- Eight bytes under REX.W, else two under the operand-size byte, else four. -/
  | full
  /-- As `full`, but at most four bytes. -/
  | half
  /-- Two bytes under the operand-size byte alone, else eight. -/
  | stack
  /-- Eight bytes under REX.W, else four. -/
  | wide
  deriving DecidableEq, Repr

/-- Which segment the text of a string operand shows. -/
inductive StringSegment where
  | extra
  /-- The overriding segment, else the data segment. -/
  | data
  /-- The overriding segment, if there is one. -/
  | override
  deriving DecidableEq, Repr

/-- Where an operand comes from. -/
inductive Slot where
  /-- The register or memory that the ModRM byte names, with the size of a memory access. -/
  | place (w : Width)
  | placeSized (w : Width) (size : Nat)
  /-- The register that the ModRM byte names in its lower bits, whatever its upper two. -/
  | lowerRegister (w : Width)
  /-- Memory only. -/
  | memory (size : Option Nat)
  | memoryOf (w : Width)
  /-- The register in the middle bits of the ModRM byte. -/
  | reg (w : Width)
  /-- The register in the lower bits of the opcode byte. -/
  | opcodeReg (w : Width)
  | accumulator (w : Width)
  | fixed (r : Reg)
  | segment
  | control
  | debug
  /-- An immediate of so many bytes, signed. -/
  | signed (bytes : Nat)
  /-- A signed immediate of the operand's width. -/
  | signedOf (w : Width)
  | unsigned (bytes : Nat)
  | literal (value : Int)
  | relative (bytes : Nat)
  /-- An address of its own, without ModRM byte. -/
  | offset (w : Width)
  /-- Memory at an index register, as string operations use it. -/
  | string (w : Width) (index : Nat) (segment : StringSegment)
  /-- A vector register in the middle bits of the ModRM byte. -/
  | vector (bank : Bank)
  /-- A vector register or memory of so many bytes. -/
  | vectorPlace (bank : Bank) (size : Nat)
  /-- A vector register in the lower bits of the ModRM byte. -/
  | vectorRegister (bank : Bank)
  /-- The vector register that a VEX byte names. -/
  | vectorSource (bank : Bank)
  /-- The general register that a VEX byte names. -/
  | source (w : Width)
  /-- A vector register in the middle bits of the ModRM byte, under the mask of an EVEX byte. -/
  | maskedVector (bank : Bank)
  /-- An entry of the floating-point stack. -/
  | stackEntry
  deriving DecidableEq, Repr

namespace Slot

/-- Does the operand take its value from the lower bits of the ModRM byte, so that memory may follow? -/
def isPlace : Slot → Bool
  | place _ | placeSized _ _ | memory _ | memoryOf _ | vectorPlace _ _ => true
  | _ => false

/-- Does the operand need the ModRM byte? -/
def usesModRM : Slot → Bool
  | place _ | placeSized _ _ | lowerRegister _ | memory _ | memoryOf _ | reg _ | segment | control | debug | vector _
  | vectorPlace _ _ | vectorRegister _ | maskedVector _ | stackEntry => true
  | _ => false

/-- Does the operand take its value from the register that a VEX byte names? -/
def isSource : Slot → Bool
  | vectorSource _ | source _ => true
  | _ => false

end Slot

/-- The byte among the prefixes that selects one of four meanings of an opcode. -/
inductive Selector where
  | none
  | data
  | repeated
  | repeatedNot
  deriving DecidableEq, Repr

/-- A demand on the encoding around the opcode byte. -/
inductive Guard where
  /-- The middle bits of the ModRM byte. -/
  | extension (n : Nat)
  /-- The whole ModRM byte. -/
  | modRM (byte : UInt8)
  | register
  | memory
  | selector (s : Selector)
  /-- REX.W. -/
  | wide
  /-- Operands of two bytes. -/
  | narrow
  /-- REX.B. -/
  | extended
  /-- No extra source: a VEX byte names the first register, which stands for none. -/
  | unsourced
  deriving DecidableEq, Repr

/-- Does the demand concern the ModRM byte? -/
def Guard.usesModRM : Guard → Bool
  | extension _ | modRM _ | register | memory => true
  | _ => false

/-- The meaning of an opcode byte. -/
structure Row where
  byte : UInt8
  opcode : Opcode
  slots : List Slot
  guards : List Guard := []
  /-- May `lock` stand in front, given memory as the first operand? -/
  lockable : Bool := false
  /-- Is it a string operation whose text shows `rep`? -/
  repeats : Bool := false

namespace Row

def usesModRM (r : Row) : Bool := r.slots.any (·.usesModRM) || r.guards.any (·.usesModRM)

/-- The row, under further demands. -/
def under (r : Row) (guards : List Guard) : Row := { r with guards := r.guards ++ guards }

def locks (r : Row) : Row := { r with lockable := true }

def string (r : Row) : Row := { r with repeats := true }

end Row

/-- A row without demands. -/
def row (byte : UInt8) (opcode : Opcode) (slots : List Slot) : Row := { byte, opcode, slots }

/-- Eight rows, for the opcode bytes that name a register in their lower bits. -/
def rows8 (byte : UInt8) (opcode : Opcode) (slots : List Slot) : List Row :=
  (List.range 8).map fun i => row (byte + UInt8.ofNat i) opcode slots

/-- Rows for the operations that the middle bits of the ModRM byte tell apart. -/
def rowsByExtension (byte : UInt8) (opcodes : List Opcode) (slots : List Slot) : List Row :=
  opcodes.mapIdx fun i opcode => (row byte opcode slots).under [.extension i]

end TaintReplay.X86
