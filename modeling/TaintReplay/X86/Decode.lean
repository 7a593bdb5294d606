import TaintReplay.X86.Encoding
import TaintReplay.X86.Table.Extended
import TaintReplay.X86.Table.Float
import TaintReplay.X86.Table.OneByte
import TaintReplay.X86.Table.TwoByte

/-!
# Decoding

`decode bytes` is the instruction that the bytes begin with, and `decodeWhole bytes` the instruction that takes all of
them. Decoding reads the lead and the opcode (`readOpcode`), finds the first row of the opcode's table that fits, and
reads the operands by the row's slots (`readOperands`). Every part is a local reader, so an instruction depends on its
own bytes alone (`decode_take`), and takes at least one byte and no more than there are (`length_pos_of_decode`,
`length_le_of_decode`).
-/

namespace TaintReplay.X86

/-- The longest instruction, in bytes. -/
def maxLength : Nat := 15

/-- The most legacy bytes in front of an opcode. -/
def maxLegacy : Nat := 13

/-- The rows of a page. -/
def Page.rows : Page → List Row
  | oneByte => Table.oneByte ++ Table.float
  | afterEscape => Table.twoByteGeneral ++ Table.twoByteVector
  | afterEscape38 => Table.threeByteGeneral ++ Table.threeByteVector
  | afterEscape3a => Table.threeByteImmediate

/-- The rows of a page behind a VEX or EVEX byte. -/
def Page.extendedRows (page : Page) (x : Extension) : List Row :=
  if x.evex then
    match page, x.length with
    | .afterEscape, 0 => Table.maskedMoves .xmm 16
    | .afterEscape, 1 => Table.maskedMoves .ymm 32
    | .afterEscape, 2 => Table.maskedMoves .zmm 64
    | _, _ => []
  else
    let long := x.length == 1
    match page with
    | .oneByte => []
    | .afterEscape => Table.twoByteVector.filterMap (Table.extendedRow? long) ++ Table.extendedTwoByte long
    | .afterEscape38 => Table.threeByteVector.filterMap (Table.extendedRow? long) ++ Table.extendedThreeByte long
    | .afterEscape3a => Table.threeByteImmediate.filterMap (Table.extendedRow? long) ++ Table.extendedImmediate long

namespace Encoding

/-- The rows of the opcode byte. -/
def candidates (e : Encoding) : List Row :=
  ((e.extension.map e.page.extendedRows).getD e.page.rows).filter (·.byte == e.byte)

/-- The first row that fits. -/
def row? (e : Encoding) : Option Row := e.candidates.find? (·.guards.all e.meets)

/-- May the instruction stand behind `lock`? -/
def allowsLock (row : Row) (operands : List Operand) : Bool :=
  row.lockable && match operands with
    | .memory _ _ _ :: _ => true
    | _ => false

/-- The words in front of the mnemonic. -/
def marks (e : Encoding) (row : Row) (operands : List Operand) : List String :=
  let lock := if e.lead.lock then ["lock"] else []
  let exchanges := row.opcode = .plain "xchg" && row.lockable && operands.any fun
    | .memory _ _ _ => true
    | _ => false
  let stores := row.opcode = .mov && match operands with
    | [.memory _ _ _, .register r] => r.bank != .segment && e.byte < 0xa0
    | [.memory _ _ _, .immediate _] => true
    | _ => false
  match e.lead.repetition with
  | none => lock
  | some .whileEqual =>
    if row.repeats then lock ++ ["rep"] else if e.lead.lock || exchanges || stores then "xrelease" :: lock else lock
  | some .whileNotEqual =>
    if row.repeats then lock ++ ["repnz"] else if e.lead.lock || exchanges then "xacquire" :: lock else lock

end Encoding

/-- The encoding behind the escape byte. -/
def readEscaped (lead : Lead) : Reader Encoding := do
  match ← Reader.byte with
  | 0x38 => return { lead, page := .afterEscape38, byte := ← Reader.byte, selector := lead.selector }
  | 0x3a => return { lead, page := .afterEscape3a, byte := ← Reader.byte, selector := lead.selector }
  | b => return { lead, page := .afterEscape, byte := b, selector := lead.selector }

/-- The selector and the page that two numbers of a VEX or EVEX byte stand for. -/
def selectorOf (n : Nat) : Selector := [.none, .data, .repeated, .repeatedNot].getD n .none

def pageOf : Nat → Reader Page
  | 1 => pure .afterEscape
  | 2 => pure .afterEscape38
  | 3 => pure .afterEscape3a
  | _ => failure

/-- The encoding behind the short VEX byte. Its upper bits are stored inverted. -/
def readShortVex (lead : Lead) : Reader Encoding := do
  let b := (← Reader.byte).toNat
  let lead := { lead with rex := some ⟨false, b < 128, false, false⟩ }
  let extension := { source := 15 - b / 8 % 16, length := b / 4 % 2 }
  let byte ← Reader.byte
  return { lead, page := .afterEscape, byte, selector := selectorOf (b % 4), extension := some extension }

/-- The encoding behind the long VEX byte. -/
def readLongVex (lead : Lead) : Reader Encoding := do
  let first := (← Reader.byte).toNat
  let second := (← Reader.byte).toNat
  let page ← pageOf (first % 32)
  let lead := { lead with rex := some ⟨128 ≤ second, first < 128, first / 64 % 2 = 0, first / 32 % 2 = 0⟩ }
  let extension := { source := 15 - second / 8 % 16, length := second / 4 % 2 }
  return { lead, page, byte := ← Reader.byte, selector := selectorOf (second % 4), extension := some extension }

/-- The encoding behind the EVEX byte. -/
def readEvex (lead : Lead) : Reader Encoding := do
  let first := (← Reader.byte).toNat
  let second := (← Reader.byte).toNat
  let third := (← Reader.byte).toNat
  if first / 4 % 4 ≠ 0 || second / 4 % 2 ≠ 1 then failure
  let page ← pageOf (first % 4)
  let lead := { lead with rex := some ⟨128 ≤ second, first < 128, first / 64 % 2 = 0, first / 32 % 2 = 0⟩ }
  let extension := {
    source := 15 - second / 8 % 16 + (if third / 8 % 2 = 0 then 16 else 0), length := third / 32 % 4, mask := third % 8,
    zeroing := 128 ≤ third, highReg := first / 16 % 2 = 0, highPlace := first / 64 % 2 = 0, evex := true }
  return { lead, page, byte := ← Reader.byte, selector := selectorOf (second % 4), extension := some extension }

/-- The encoding whose first byte after the lead is `b`. -/
def readPage (lead : Lead) (b : UInt8) : Reader Encoding :=
  let free := lead.rex.isNone && !lead.dataSize && lead.repetition.isNone && !lead.lock
  match b with
  | 0x0f => readEscaped lead
  | 0xc4 => if free then readLongVex lead else failure
  | 0xc5 => if free then readShortVex lead else failure
  | 0x62 => if free then readEvex lead else failure
  | b => pure { lead, page := .oneByte, byte := b, selector := lead.selector }

/-- Reads the lead and the opcode. `fuel` bounds the bytes of the lead and `legacy` the legacy bytes among them. -/
def readOpcodeFrom : Nat → Nat → Lead → Reader Encoding
  | 0, _, _ => failure
  | fuel + 1, legacy, lead => do
    let b ← Reader.byte
    match lead.legacy? b with
    | some lead => if legacy = 0 then failure else readOpcodeFrom fuel (legacy - 1) lead
    | none =>
      if 0x40 ≤ b && b < 0x50 then readOpcodeFrom fuel legacy { lead with rex := some (Rex.ofByte b) }
      else readPage lead b

def readOpcode : Reader Encoding := readOpcodeFrom maxLength maxLegacy {}

/-- Reads the ModRM byte, if the opcode has one. -/
def readModRM (e : Encoding) : Reader Encoding := do
  if e.candidates.any (·.usesModRM) then return { e with modRM := ← Reader.byte } else return e

/-- Reads the operands of the slots, in order. -/
def readSlots (e : Encoding) (address : Option Address) : List Slot → Reader (List Operand)
  | [] => pure []
  | slot :: slots => do
    let operand ← e.readSlot address slot
    let operands ← readSlots e address slots
    pure (operand :: operands)

/-- Reads the address, if a slot names a place that is memory. -/
def readPlace (e : Encoding) (slots : List Slot) : Reader (Option Address) := do
  if slots.any (·.isPlace) && !e.namesRegister then return some (← e.readAddress) else return none

/-- Reads the operands of a row and makes the instruction, of which only the length is left open. -/
def readOperands (e : Encoding) (row : Row) : Reader Instruction := do
  let address ← readPlace e row.slots
  let operands ← readSlots e address row.slots
  if e.lead.lock && !Encoding.allowsLock row operands then failure
  return { opcode := row.opcode, operands, marks := e.marks row operands, length := 0 }

/-- Reads an instruction, of which only the length is left open. -/
def readInstruction : Reader Instruction := do
  let e ← readModRM (← readOpcode)
  match e.row? with
  | some row => readOperands e row
  | none => failure

/-- The instruction that the bytes begin with. -/
def decode (bytes : List UInt8) : Option Instruction :=
  match readInstruction.run bytes with
  | some (i, rest) =>
    if bytes.length - rest.length ≤ maxLength then some { i with length := bytes.length - rest.length } else none
  | none => none

/-- The instruction that takes all of the bytes. -/
def decodeWhole (bytes : List UInt8) : Option Instruction := (decode bytes).filter (·.length == bytes.length)

end TaintReplay.X86
