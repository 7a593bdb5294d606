import TaintReplay.X86.Row

/-!
# General opcodes after the escape byte

The opcodes after `0f` that work on general registers, flags or the system, and those after `0f 38` of the same kind.
-/

namespace TaintReplay.X86.Table

def conditionalMoves : List Row :=
  Condition.all.mapIdx fun i c => row (0x40 + UInt8.ofNat i) (.plain ("cmov" ++ c.suffix)) [.reg .full, .place .full]

def longJumps : List Row :=
  Condition.all.mapIdx fun i c => row (0x80 + UInt8.ofNat i) (.branch (.on c)) [.relative 4]

def storedConditions : List Row :=
  Condition.all.mapIdx fun i c => row (0x90 + UInt8.ofNat i) (.plain ("set" ++ c.storedSuffix)) [.place .byte]

/-- The operations on single bits. The forms with an immediate work on the width of the stack. -/
def bits : List Row :=
  [row 0xa3 (.plain "bt") [.place .full, .reg .full],
    (row 0xab (.plain "bts") [.place .full, .reg .full]).locks,
    (row 0xb3 (.plain "btr") [.place .full, .reg .full]).locks,
    (row 0xbb (.plain "btc") [.place .full, .reg .full]).locks,
    (row 0xba (.plain "bt") [.place .stack, .signed 1]).under [.extension 4],
    (row 0xba (.plain "bts") [.place .stack, .signed 1]).under [.extension 5] |>.locks,
    (row 0xba (.plain "btr") [.place .stack, .signed 1]).under [.extension 6] |>.locks,
    (row 0xba (.plain "btc") [.place .stack, .signed 1]).under [.extension 7] |>.locks,
    (row 0xb8 (.plain "popcnt") [.reg .full, .place .full]).under [.selector .repeated],
    (row 0xbc (.plain "tzcnt") [.reg .full, .place .full]).under [.selector .repeated],
    row 0xbc (.plain "bsf") [.reg .full, .place .full],
    (row 0xbd (.plain "lzcnt") [.reg .full, .place .full]).under [.selector .repeated],
    row 0xbd (.plain "bsr") [.reg .full, .place .full]] ++
  rows8 0xc8 (.plain "bswap") [.opcodeReg .qword]

/-- Widening moves, multiplication, double shifts and the exchanges. -/
def wide : List Row :=
  [row 0xb6 .movzx [.reg .full, .place .byte],
    row 0xb7 .movzx [.reg .full, .place .word],
    row 0xbe .movsx [.reg .full, .place .byte],
    row 0xbf .movsx [.reg .full, .place .word],
    row 0xaf (.plain "imul") [.reg .full, .place .full],
    row 0xa4 (.plain "shld") [.place .full, .reg .full, .signed 1],
    row 0xa5 (.plain "shld") [.place .full, .reg .full, .fixed ⟨.legacyByte, 1⟩],
    row 0xac (.plain "shrd") [.place .full, .reg .full, .signed 1],
    row 0xad (.plain "shrd") [.place .full, .reg .full, .fixed ⟨.legacyByte, 1⟩],
    (row 0xb0 (.plain "cmpxchg") [.place .byte, .reg .byte]).locks,
    (row 0xb1 (.plain "cmpxchg") [.place .full, .reg .full]).locks,
    (row 0xc0 (.plain "xadd") [.place .byte, .reg .byte]).locks,
    (row 0xc1 (.plain "xadd") [.place .full, .reg .full]).locks,
    (row 0xc3 (.plain "movnti") [.memoryOf .wide, .reg .wide]).under [.selector .none],
    (row 0xc7 (.plain "cmpxchg16b") [.memory (some 16)]).under [.extension 1, .memory, .wide] |>.locks,
    (row 0xc7 (.plain "cmpxchg8b") [.memory (some 8)]).under [.extension 1, .memory] |>.locks,
    (row 0xc7 (.plain "rdrand") [.place .full]).under [.extension 6, .register],
    (row 0xc7 (.plain "rdseed") [.place .full]).under [.extension 7, .register],
    (row 0xc7 (.plain "xsavec64") [.memory none]).under [.extension 4, .memory, .wide],
    (row 0xc7 (.plain "xsavec") [.memory none]).under [.extension 4, .memory],
    (row 0xc7 (.plain "xsaves64") [.memory none]).under [.extension 5, .memory, .wide],
    (row 0xc7 (.plain "xsaves") [.memory none]).under [.extension 5, .memory],
    (row 0xc7 (.plain "xrstors64") [.memory none]).under [.extension 3, .memory, .wide],
    (row 0xc7 (.plain "xrstors") [.memory none]).under [.extension 3, .memory],
    (row 0xc7 (.plain "vmclear") [.memory (some 8)]).under [.extension 6, .memory, .selector .data],
    (row 0xc7 (.plain "vmxon") [.memory (some 8)]).under [.extension 6, .memory, .selector .repeated],
    (row 0xc7 (.plain "vmptrld") [.memory (some 8)]).under [.extension 6, .memory],
    (row 0xc7 (.plain "vmptrst") [.memory (some 8)]).under [.extension 7, .memory]]

/-- The loads of a segment register together with a general one, from a far pointer in memory. -/
def farPointers : List Row :=
  [(0xb2, "lss"), (0xb4, "lfs"), (0xb5, "lgs")].flatMap fun (byte, mnemonic) =>
    [(row byte (.plain mnemonic) [.reg .full, .memory (some 10)]).under [.wide],
      (row byte (.plain mnemonic) [.reg .full, .memory (some 4)]).under [.narrow],
      row byte (.plain mnemonic) [.reg .full, .memory (some 6)]]

def segmentStack : List Row :=
  [row 0xa0 .push [.fixed ⟨.segment, 4⟩],
    row 0xa1 .pop [.fixed ⟨.segment, 4⟩],
    row 0xa8 .push [.fixed ⟨.segment, 5⟩],
    row 0xa9 .pop [.fixed ⟨.segment, 5⟩]]

/-- The operations under the bytes `00` and `01`, on descriptor tables and the processor's state. -/
def system : List Row :=
  rowsByExtension 0x00 (["sldt", "str", "lldt", "ltr", "verr", "verw"].map .plain) [.place .word] ++
  (["sgdt", "sidt", "lgdt", "lidt"].mapIdx fun i mnemonic =>
    (row 0x01 (.plain mnemonic) [.memory none]).under [.extension i, .memory]) ++
  [(row 0x01 (.plain "smsw") [.place .word]).under [.extension 4],
    (row 0x01 (.plain "lmsw") [.place .word]).under [.extension 6],
    (row 0x01 (.plain "invlpg") [.memory (some 1)]).under [.extension 7, .memory]] ++
  ([(0xc0, "enclv"), (0xc1, "vmcall"), (0xc2, "vmlaunch"), (0xc3, "vmresume"), (0xc4, "vmxoff"), (0xc8, "monitor"),
    (0xc9, "mwait"), (0xca, "clac"), (0xcb, "stac"), (0xcf, "encls"), (0xd0, "xgetbv"), (0xd1, "xsetbv"),
    (0xd4, "vmfunc"), (0xd5, "xend"), (0xd6, "xtest"), (0xd7, "enclu"), (0xee, "rdpkru"), (0xef, "wrpkru"),
    (0xf8, "swapgs"), (0xf9, "rdtscp"), (0xfa, "monitorx"), (0xfb, "mwaitx"), (0xfc, "clzero"), (0xfd, "rdpru")].map
    fun (byte, mnemonic) => (row 0x01 (.plain mnemonic) []).under [.modRM byte]) ++
  [row 0x02 (.plain "lar") [.reg .full, .place .word],
    row 0x03 (.plain "lsl") [.reg .full, .place .word],
    row 0x20 .mov [.lowerRegister .qword, .control],
    row 0x21 .mov [.lowerRegister .qword, .debug],
    row 0x22 .mov [.control, .lowerRegister .qword],
    row 0x23 .mov [.debug, .lowerRegister .qword],
    (row 0x78 (.plain "vmread") [.place .qword, .reg .qword]).under [.selector .none],
    (row 0x79 (.plain "vmwrite") [.reg .qword, .place .qword]).under [.selector .none],
    row 0xb9 (.plain "ud1") [.reg .full, .place .full],
    row 0xff (.plain "ud0") [.reg .full, .place .full]] ++
  ([(0x05, "syscall"), (0x06, "clts"), (0x07, "sysret"), (0x08, "invd"), (0x09, "wbinvd"), (0x0b, "ud2"),
    (0x0e, "femms"), (0x30, "wrmsr"), (0x31, "rdtsc"), (0x32, "rdmsr"), (0x33, "rdpmc"), (0x34, "sysenter"),
    (0x35, "sysexit"), (0x37, "getsec"), (0x77, "emms"), (0xa2, "cpuid"), (0xaa, "rsm")].map
    fun (byte, mnemonic) => row byte (.plain mnemonic) [])

/-- Hints: prefetches and operations without effect. -/
def hints : List Row :=
  (["prefetchnta", "prefetch0", "prefetch1", "prefetch2"].mapIdx fun i mnemonic =>
    (row 0x18 (.plain mnemonic) [.memory (some 64)]).under [.extension i, .memory]) ++
  [(row 0x0d (.plain "prefetchw") [.memory (some 64)]).under [.extension 1, .memory],
    row 0x0d .nop [.place .full],
    row 0x18 .nop [.place .full],
    row 0x19 .nop [.place .full],
    row 0x1a .nop [.place .full],
    row 0x1b .nop [.place .full],
    row 0x1c .nop [.place .full],
    row 0x1d .nop [.place .full],
    (row 0x1e (.plain "endbr64") []).under [.selector .repeated, .modRM 0xfa],
    (row 0x1e (.plain "endbr32") []).under [.selector .repeated, .modRM 0xfb],
    (row 0x1e (.plain "rdsspq") [.place .wide]).under [.selector .repeated, .extension 1, .register, .wide],
    (row 0x1e (.plain "rdsspd") [.place .wide]).under [.selector .repeated, .extension 1, .register],
    row 0x1e .nop [.place .full],
    row 0x1f .nop [.place .full]]

/-- The operations under the byte `ae`: saved states, fences and the bases of segments. -/
def savedStates : List Row :=
  [(row 0xae (.plain "rdfsbase") [.place .wide]).under [.selector .repeated, .extension 0, .register],
    (row 0xae (.plain "rdgsbase") [.place .wide]).under [.selector .repeated, .extension 1, .register],
    (row 0xae (.plain "wrfsbase") [.place .wide]).under [.selector .repeated, .extension 2, .register],
    (row 0xae (.plain "wrgsbase") [.place .wide]).under [.selector .repeated, .extension 3, .register],
    (row 0xae (.plain "clwb") [.memory (some 64)]).under [.selector .data, .extension 6, .memory],
    (row 0xae (.plain "clflushopt") [.memory (some 64)]).under [.selector .data, .extension 7, .memory],
    (row 0xae (.plain "fxsave") [.memory none]).under [.extension 0, .memory],
    (row 0xae (.plain "fxrstor") [.memory none]).under [.extension 1, .memory],
    (row 0xae (.plain "ldmxcsr") [.memory (some 4)]).under [.extension 2, .memory],
    (row 0xae (.plain "stmxcsr") [.memory (some 4)]).under [.extension 3, .memory],
    (row 0xae (.plain "xsave") [.memory none]).under [.extension 4, .memory],
    (row 0xae (.plain "xrstor") [.memory none]).under [.extension 5, .memory],
    (row 0xae (.plain "xsaveopt") [.memory none]).under [.extension 6, .memory],
    (row 0xae (.plain "clflush") [.memory (some 64)]).under [.extension 7, .memory],
    (row 0xae (.plain "lfence") []).under [.extension 5, .register],
    (row 0xae (.plain "mfence") []).under [.extension 6, .register],
    (row 0xae (.plain "sfence") []).under [.extension 7, .register]]

/-- The general opcodes after `0f`. -/
def twoByteGeneral : List Row :=
  conditionalMoves ++ longJumps ++ storedConditions ++ bits ++ wide ++ farPointers ++ segmentStack ++ system ++ hints ++
    savedStates

/-- The general opcodes after `0f 38`. -/
def threeByteGeneral : List Row :=
  [(row 0xf0 (.plain "crc32") [.reg .wide, .place .byte]).under [.selector .repeatedNot],
    (row 0xf1 (.plain "crc32") [.reg .wide, .place .full]).under [.selector .repeatedNot],
    row 0xf0 (.plain "movbe") [.reg .full, .memoryOf .full],
    row 0xf1 (.plain "movbe") [.memoryOf .full, .reg .full],
    (row 0xf6 (.plain "adcx") [.reg .wide, .place .wide]).under [.selector .data],
    (row 0xf6 (.plain "adox") [.reg .wide, .place .wide]).under [.selector .repeated]]

end TaintReplay.X86.Table
