import TaintReplay.X86.Bytes
import TaintReplay.X86.Row

/-!
# The parts of an encoding

An instruction begins with legacy bytes (operand and address size, `lock`, the two repetitions, segments) and at most
one REX byte that counts, then comes the opcode, perhaps a ModRM byte, an address and immediates. `Encoding` holds what
is known before the operands are read; `Encoding.readSlot` reads one operand.
-/

namespace TaintReplay.X86

/-- The bits of a REX byte. -/
structure Rex where
  wide : Bool
  reg : Bool
  index : Bool
  base : Bool
  deriving DecidableEq, Repr

/-- Bits 0 to 3 of a byte as the bits of a REX byte. -/
def Rex.ofByte (b : UInt8) : Rex := ⟨b &&& 8 != 0, b &&& 4 != 0, b &&& 2 != 0, b &&& 1 != 0⟩

inductive Repetition where
  | whileEqual
  | whileNotEqual
  deriving DecidableEq, Repr

/-- What the bytes in front of the opcode say. -/
structure Lead where
  dataSize : Bool := false
  addressSize : Bool := false
  lock : Bool := false
  repetition : Option Repetition := none
  segment : Option Segment := none
  rex : Option Rex := none
  deriving DecidableEq, Repr

namespace Lead

/-- The lead after one more legacy byte, if the byte is one. A REX byte before it no longer counts; the segments
other than `fs` and `gs` have no meaning in 64-bit code. -/
def legacy? (l : Lead) (b : UInt8) : Option Lead :=
  let l := { l with rex := none }
  match b with
  | 0x66 => some { l with dataSize := true }
  | 0x67 => some { l with addressSize := true }
  | 0xf0 => some { l with lock := true }
  | 0xf2 => some { l with repetition := some .whileNotEqual }
  | 0xf3 => some { l with repetition := some .whileEqual }
  | 0x64 => some { l with segment := some .fs }
  | 0x65 => some { l with segment := some .gs }
  | 0x26 | 0x2e | 0x36 | 0x3e => some l
  | _ => none

/-- Which of the four meanings of an opcode the lead selects. -/
def selector (l : Lead) : Selector :=
  match l.repetition with
  | some .whileNotEqual => .repeatedNot
  | some .whileEqual => .repeated
  | none => if l.dataSize then .data else .none

end Lead

/-- The tables an opcode is looked up in. -/
inductive Page where
  | oneByte
  | afterEscape
  | afterEscape38
  | afterEscape3a
  deriving DecidableEq, Repr

/-- A part of the encoding that a VEX or EVEX byte carries beside the REX bits. -/
structure Extension where
  /-- The register of the extra source. -/
  source : Nat
  /-- The logarithm of the vector length in units of sixteen bytes. -/
  length : Nat
  mask : Nat := 0
  zeroing : Bool := false
  /-- A fifth bit of the register in the middle bits of the ModRM byte. -/
  highReg : Bool := false
  /-- A fifth bit of a vector register in the lower bits of the ModRM byte. -/
  highPlace : Bool := false
  evex : Bool := false
  deriving DecidableEq, Repr

/-- What is known of an instruction before its operands are read. -/
structure Encoding where
  lead : Lead
  page : Page
  byte : UInt8
  selector : Selector
  extension : Option Extension := none
  /-- The ModRM byte; zero if the opcode has none. -/
  modRM : UInt8 := 0
  deriving DecidableEq, Repr

namespace Encoding

variable (e : Encoding)

/-- A bit of the REX byte as the fourth bit of a register number. -/
def rexBit (bit : Rex → Bool) : Nat := if (e.lead.rex.map bit).getD false then 8 else 0

def isWide : Bool := (e.lead.rex.map (·.wide)).getD false

/-- The upper two bits of the ModRM byte. -/
def mode : Nat := e.modRM.toNat / 64

/-- The middle bits of the ModRM byte. -/
def middle : Nat := e.modRM.toNat / 8 % 8

/-- The lower bits of the ModRM byte. -/
def lower : Nat := e.modRM.toNat % 8

def namesRegister : Bool := e.mode == 3

def regIndex : Nat := e.middle + e.rexBit Rex.reg

def placeIndex : Nat := e.lower + e.rexBit Rex.base

/-- The bytes of an operand of the given width. -/
def bytesOf : Width → Nat
  | .byte => 1
  | .word => 2
  | .dword => 4
  | .qword => 8
  | .full => if e.isWide then 8 else if e.lead.dataSize then 2 else 4
  | .half => if e.isWide then 4 else if e.lead.dataSize then 2 else 4
  | .stack => if e.lead.dataSize && !e.isWide then 2 else 8
  | .wide => if e.isWide then 8 else 4

/-- The bank of a general register of the given width. -/
def bankOf (w : Width) : Bank :=
  match e.bytesOf w with
  | 1 => if e.lead.rex.isSome then .byte else .legacyByte
  | 2 => .word
  | 4 => .dword
  | _ => .qword

def general (w : Width) (index : Nat) : Operand := .register ⟨e.bankOf w, index⟩

/-- The registers that addresses are made of. -/
def addressBank : Bank := if e.lead.addressSize then .dword else .qword

/-- The displacement of an address whose mode is the upper two bits of the ModRM byte. -/
def readDisplacement : Reader Int :=
  match e.mode with
  | 1 => Reader.signed 1
  | 2 => Reader.signed 4
  | _ => pure 0

/-- The address that a ModRM byte with lower bits 4 begins: a scaled index and a base follow in a byte of their own. -/
def readScaled : Reader Address := do
  let sib := (← Reader.byte).toNat
  let number := sib / 8 % 8 + e.rexBit Rex.index
  let index := if number = 4 then none else some (⟨e.addressBank, number⟩, Nat.pow 2 (sib / 64))
  if sib % 8 = 5 && e.mode == 0 then
    match index with
    | none => return .absolute (UInt64.ofNat (← Reader.unsigned 4))
    | some _ => return .sum none index (← Reader.signed 4)
  else
    return .sum (some ⟨e.addressBank, sib % 8 + e.rexBit Rex.base⟩) index (← e.readDisplacement)

/-- The address that the ModRM byte names. -/
def readAddress : Reader Address := do
  if e.lower = 4 then
    e.readScaled
  else if e.lower = 5 && e.mode == 0 then
    return .sum (some ⟨if e.lead.addressSize then .counter32 else .counter64, 0⟩) none (← Reader.signed 4)
  else
    return .sum (some ⟨e.addressBank, e.placeIndex⟩) none (← e.readDisplacement)

/-- Memory at the address that was read, if there was one. -/
def memory? (address : Option Address) (size : Option Nat) : Reader Operand :=
  match address with
  | some a => pure (.memory size e.lead.segment a)
  | none => failure

/-- The segment that the text of a string operand shows. -/
def stringSegment : StringSegment → Option Segment
  | .extra => some .es
  | .data => some (e.lead.segment.getD .ds)
  | .override => e.lead.segment

/-- The index of a vector register in the lower bits of the ModRM byte. -/
def vectorIndex : Nat := e.placeIndex + if (e.extension.map (·.highPlace)).getD false then 16 else 0

/-- The index of a vector register in the middle bits of the ModRM byte. -/
def vectorRegIndex : Nat := e.regIndex + if (e.extension.map (·.highReg)).getD false then 16 else 0

/-- Registers of a bank that exist: segments, control and debug registers are not all there. -/
def existing (bank : Bank) (valid : List Nat) (index : Nat) : Reader Operand :=
  if index ∈ valid then pure (.register ⟨bank, index⟩) else failure

/-- Reads one operand. The address, if the ModRM byte names memory, has been read before. -/
def readSlot (address : Option Address) : Slot → Reader Operand
  | .place w =>
    if e.namesRegister then pure (e.general w e.placeIndex) else e.memory? address (some (e.bytesOf w))
  | .placeSized w size => if e.namesRegister then pure (e.general w e.placeIndex) else e.memory? address (some size)
  | .lowerRegister w => pure (e.general w e.placeIndex)
  | .memory size => e.memory? address size
  | .memoryOf w => e.memory? address (some (e.bytesOf w))
  | .reg w => pure (e.general w e.regIndex)
  | .opcodeReg w => pure (e.general w (e.byte.toNat % 8 + e.rexBit Rex.base))
  | .accumulator w => pure (e.general w 0)
  | .fixed r => pure (.register r)
  | .segment => existing .segment [0, 1, 2, 3, 4, 5] e.middle
  | .control => existing .control [0, 2, 3, 4, 8] e.regIndex
  | .debug => existing .debug [0, 1, 2, 3, 4, 5, 6, 7] e.regIndex
  | .signed bytes => return .immediate (← Reader.signed bytes)
  | .signedOf w => return .immediate (← Reader.signed (e.bytesOf w))
  | .unsigned bytes => return .immediate (← Reader.unsigned bytes)
  | .literal value => pure (.immediate value)
  | .relative bytes => return .relative (← Reader.signed bytes)
  | .offset w => do
    let value ← Reader.unsigned (if e.lead.addressSize then 4 else 8)
    return .memory (some (e.bytesOf w)) e.lead.segment (.absolute (UInt64.ofNat value))
  | .string w index segment =>
    pure (.memory (some (e.bytesOf w)) (e.stringSegment segment) (.sum (some ⟨e.addressBank, index⟩) none 0))
  | .vector bank => pure (.register ⟨bank, if bank = .mmx then e.middle else e.vectorRegIndex⟩)
  | .vectorPlace bank size =>
    if e.namesRegister then pure (.register ⟨bank, if bank = .mmx then e.lower else e.vectorIndex⟩)
    else e.memory? address (some size)
  | .vectorRegister bank => pure (.register ⟨bank, if bank = .mmx then e.lower else e.vectorIndex⟩)
  | .vectorSource bank =>
    match e.extension with
    | some x => pure (.register ⟨bank, x.source⟩)
    | none => failure
  | .source w =>
    match e.extension with
    | some x => pure (e.general w x.source)
    | none => failure
  | .maskedVector bank =>
    match e.extension with
    | some x =>
      if x.mask = 0 then pure (.register ⟨bank, e.vectorRegIndex⟩)
      else pure (.masked ⟨bank, e.vectorRegIndex⟩ x.mask x.zeroing)
    | none => failure
  | .stackEntry => pure (.register ⟨.float, e.lower⟩)

/-- Does the encoding meet the demand? -/
def meets : Guard → Bool
  | .extension n => e.middle == n
  | .modRM byte => e.modRM == byte
  | .register => e.namesRegister
  | .memory => !e.namesRegister
  | .selector s => e.selector == s
  | .wide => e.isWide
  | .narrow => e.lead.dataSize && !e.isWide
  | .extended => e.rexBit Rex.base != 0
  | .unsourced => (e.extension.map (·.source == 0)).getD true

end Encoding

end TaintReplay.X86
