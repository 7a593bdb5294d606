import TaintReplay.X86.Row

/-!
# Opcodes of one byte

The table of the opcodes that stand alone, without the escape byte `0f`. Bytes that are missing here start no
instruction in 64-bit code.
-/

namespace TaintReplay.X86.Table

/-- The eight arithmetic operations, in the order of their encoding. -/
def arithmetic : List Opcode :=
  [.plain "add", .plain "or", .plain "adc", .plain "sbb", .plain "and", .sub, .xor, .cmp]

/-- The eight shifts and rotations, in the order of their encoding. -/
def shifts : List Opcode := ["rol", "ror", "rcl", "rcr", "shl", "shr", "sal", "sar"].map .plain

/-- All but comparisons may be locked. -/
def arithmeticLock (opcode : Opcode) (r : Row) : Row := if opcode = .cmp then r else r.locks

def al : Reg := ⟨.legacyByte, 0⟩

def cl : Reg := ⟨.legacyByte, 1⟩

def dl : Reg := ⟨.legacyByte, 2⟩

def dx : Reg := ⟨.word, 2⟩

/-- The six forms of an arithmetic operation whose operands are registers, memory or the accumulator. -/
def arithmeticForms (index : Nat) (opcode : Opcode) : List Row :=
  let code (i : Nat) : UInt8 := UInt8.ofNat (8 * index + i)
  [arithmeticLock opcode (row (code 0) opcode [.place .byte, .reg .byte]),
    arithmeticLock opcode (row (code 1) opcode [.place .full, .reg .full]),
    row (code 2) opcode [.reg .byte, .place .byte],
    row (code 3) opcode [.reg .full, .place .full],
    row (code 4) opcode [.accumulator .byte, .signed 1],
    row (code 5) opcode [.accumulator .full, .signedOf .half]]

/-- The forms of an arithmetic operation with an immediate. -/
def arithmeticImmediates (byte : UInt8) (slots : List Slot) : List Row :=
  arithmetic.mapIdx fun i opcode => arithmeticLock opcode ((row byte opcode slots).under [.extension i])

/-- The operations on one operand of a given width, with the test against an immediate. -/
def unary (byte : UInt8) (w : Width) (immediate : Slot) : List Row :=
  [(row byte .test [.place w, immediate]).under [.extension 0],
    (row byte .test [.place w, immediate]).under [.extension 1],
    (row byte (.plain "not") [.place w]).under [.extension 2] |>.locks,
    (row byte (.plain "neg") [.place w]).under [.extension 3] |>.locks,
    (row byte (.plain "mul") [.place w]).under [.extension 4],
    (row byte (.plain "imul") [.place w]).under [.extension 5],
    (row byte (.plain "div") [.place w]).under [.extension 6],
    (row byte (.plain "idiv") [.place w]).under [.extension 7]]

def moves : List Row :=
  [row 0x63 .movsxd [.reg .qword, .place .dword],
    row 0x88 .mov [.place .byte, .reg .byte],
    row 0x89 .mov [.place .full, .reg .full],
    row 0x8a .mov [.reg .byte, .place .byte],
    row 0x8b .mov [.reg .full, .place .full],
    row 0x8c .mov [.place .word, .segment],
    row 0x8d .lea [.reg .full, .memoryOf .full],
    row 0xa0 .mov [.accumulator .byte, .offset .byte],
    row 0xa1 .mov [.accumulator .full, .offset .full],
    row 0xa2 .mov [.offset .byte, .accumulator .byte],
    row 0xa3 .mov [.offset .full, .accumulator .full],
    (row 0xc6 .mov [.place .byte, .signed 1]).under [.extension 0],
    (row 0xc7 .mov [.place .full, .signedOf .half]).under [.extension 0],
    (row 0xc6 (.plain "xabort") [.unsigned 1]).under [.modRM 0xf8],
    (row 0xc7 (.plain "xbegin") [.relative 4]).under [.modRM 0xf8]] ++
  [0, 2, 3, 4, 5].map (fun n => (row 0x8e .mov [.segment, .place .word]).under [.extension n]) ++
  rows8 0xb0 .mov [.opcodeReg .byte, .unsigned 1] ++
  rows8 0xb8 .mov [.opcodeReg .full, .signedOf .full]

def stack : List Row :=
  rows8 0x50 .push [.opcodeReg .stack] ++
  rows8 0x58 .pop [.opcodeReg .stack] ++
  [row 0x68 .push [.signedOf .half],
    row 0x6a .push [.signed 1],
    (row 0x8f .pop [.place .stack]).under [.extension 0],
    row 0x9c (.plain "pushf") [],
    row 0x9d (.plain "popf") [],
    row 0xc8 (.plain "enter") [.unsigned 2, .unsigned 1],
    row 0xc9 (.plain "leave") []]

def exchanges : List Row :=
  [(row 0x86 (.plain "xchg") [.place .byte, .reg .byte]).locks,
    (row 0x87 (.plain "xchg") [.place .full, .reg .full]).locks,
    (row 0x90 (.plain "xchg") [.accumulator .full, .opcodeReg .full]).under [.extended],
    row 0x90 .nop []] ++
  (List.range 7).map fun i => row (0x91 + UInt8.ofNat i) (.plain "xchg") [.accumulator .full, .opcodeReg .full]

def strings : List Row :=
  [(row 0x6c (.plain "ins") [.string .byte 7 .override, .fixed dl]).string,
    (row 0x6d (.plain "ins") [.string .half 7 .override, .fixed dx]).string,
    (row 0x6e (.plain "outs") [.fixed dl, .string .byte 6 .override]).string,
    (row 0x6f (.plain "outs") [.fixed dx, .string .half 6 .override]).string,
    (row 0xa4 (.plain "movs") [.string .byte 7 .extra, .string .byte 6 .data]).string,
    (row 0xa5 (.plain "movs") [.string .full 7 .extra, .string .full 6 .data]).string,
    (row 0xa6 (.plain "cmps") [.string .byte 7 .data, .string .byte 6 .extra]).string,
    (row 0xa7 (.plain "cmps") [.string .full 7 .data, .string .full 6 .extra]).string,
    (row 0xaa (.plain "stos") [.string .byte 7 .extra, .accumulator .byte]).string,
    (row 0xab (.plain "stos") [.string .full 7 .extra, .accumulator .full]).string,
    (row 0xac (.plain "lods") [.accumulator .byte, .string .byte 6 .data]).string,
    (row 0xad (.plain "lods") [.accumulator .full, .string .full 6 .data]).string,
    row 0xae (.plain "scas") [.string .byte 7 .extra, .accumulator .byte],
    row 0xaf (.plain "scas") [.string .full 7 .extra, .accumulator .full]]

def jumps : List Row :=
  Condition.all.mapIdx (fun i c => row (0x70 + UInt8.ofNat i) (.branch (.on c)) [.relative 1]) ++
  [row 0xe0 (.branch .loopNotZero) [.relative 1],
    row 0xe1 (.branch .loopZero) [.relative 1],
    row 0xe2 (.branch .loop) [.relative 1],
    row 0xe3 (.branch .counterZero) [.relative 1],
    row 0xc2 .ret [.unsigned 2],
    row 0xc3 .ret [],
    row 0xca (.plain "retf") [.unsigned 2],
    row 0xcb (.plain "retf") [],
    row 0xe8 .call [.signed 4],
    row 0xe9 .jmp [.relative 4],
    row 0xeb .jmp [.relative 1],
    row 0xcc (.plain "int") [.literal 3],
    row 0xcd (.plain "int") [.unsigned 1],
    (row 0xcf (.plain "iretq") []).under [.wide],
    (row 0xcf (.plain "iret") []).under [.narrow],
    row 0xcf (.plain "iretd") [],
    row 0xf1 (.plain "icebp") []]

def conversions : List Row :=
  [(row 0x98 (.plain "cdqe") []).under [.wide],
    (row 0x98 (.plain "cbw") []).under [.narrow],
    row 0x98 (.plain "cwde") [],
    (row 0x99 (.plain "cqo") []).under [.wide],
    (row 0x99 (.plain "cwd") []).under [.narrow],
    row 0x99 (.plain "cdq") []]

def flags : List Row :=
  [(0x9b, "wait"), (0x9e, "sahf"), (0x9f, "lahf"), (0xd7, "xlat"), (0xf4, "hlt"), (0xf5, "cmc"), (0xf8, "clc"),
    (0xf9, "stc"), (0xfa, "cli"), (0xfb, "sti"), (0xfc, "cld"), (0xfd, "std")].map
    fun (byte, mnemonic) => row byte (.plain mnemonic) []

def ports : List Row :=
  [row 0xe4 (.plain "in") [.accumulator .byte, .unsigned 1],
    row 0xe5 (.plain "in") [.accumulator .half, .unsigned 1],
    row 0xe6 (.plain "out") [.unsigned 1, .accumulator .byte],
    row 0xe7 (.plain "out") [.unsigned 1, .accumulator .half],
    row 0xec (.plain "in") [.accumulator .byte, .fixed dx],
    row 0xed (.plain "in") [.accumulator .half, .fixed dx],
    row 0xee (.plain "out") [.fixed dx, .accumulator .byte],
    row 0xef (.plain "out") [.fixed dx, .accumulator .half]]

/-- The operations under the bytes `fe` and `ff`. -/
def increments : List Row :=
  [(row 0xfe (.plain "inc") [.place .byte]).under [.extension 0] |>.locks,
    (row 0xfe (.plain "dec") [.place .byte]).under [.extension 1] |>.locks,
    (row 0xff (.plain "inc") [.place .full]).under [.extension 0] |>.locks,
    (row 0xff (.plain "dec") [.place .full]).under [.extension 1] |>.locks,
    (row 0xff .call [.place .qword]).under [.extension 2],
    (row 0xff (.plain "callf") [.memory (some 10)]).under [.extension 3],
    (row 0xff .jmp [.place .qword]).under [.extension 4],
    (row 0xff (.plain "jmpf") [.memory (some 10)]).under [.extension 5],
    (row 0xff .push [.place .stack]).under [.extension 6]]

/-- Every opcode of one byte. -/
def oneByte : List Row :=
  (arithmetic.mapIdx arithmeticForms).flatten ++
  moves ++ stack ++ exchanges ++ strings ++ jumps ++ conversions ++ flags ++ ports ++ increments ++
  [row 0x69 (.plain "imul") [.reg .full, .place .full, .signedOf .half],
    row 0x6b (.plain "imul") [.reg .full, .place .full, .signed 1],
    row 0x84 .test [.place .byte, .reg .byte],
    row 0x85 .test [.place .full, .reg .full],
    row 0xa8 .test [.accumulator .byte, .signed 1],
    row 0xa9 .test [.accumulator .full, .signedOf .half]] ++
  arithmeticImmediates 0x80 [.place .byte, .signed 1] ++
  arithmeticImmediates 0x81 [.place .full, .signedOf .half] ++
  arithmeticImmediates 0x83 [.place .full, .signed 1] ++
  rowsByExtension 0xc0 shifts [.place .byte, .signed 1] ++
  rowsByExtension 0xc1 shifts [.place .full, .signed 1] ++
  rowsByExtension 0xd0 shifts [.place .byte, .literal 1] ++
  rowsByExtension 0xd1 shifts [.place .full, .literal 1] ++
  rowsByExtension 0xd2 shifts [.place .byte, .fixed cl] ++
  rowsByExtension 0xd3 shifts [.place .full, .fixed cl] ++
  unary 0xf6 .byte (.signed 1) ++
  unary 0xf7 .full (.signedOf .half)

end TaintReplay.X86.Table
