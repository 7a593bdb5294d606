import TaintReplay.X86.Row

/-!
# Vector opcodes

The opcodes after `0f`, `0f 38` and `0f 3a` that work on vector registers. One of four selectors chooses among the
meanings of a byte; a byte that has no meaning under a selector starts no instruction.
-/

namespace TaintReplay.X86.Table

private def v : Slot := .vector .xmm

private def w (size : Nat) : Slot := .vectorPlace .xmm size

private def p : Slot := .vector .mmx

private def q : Slot := .vectorPlace .mmx 8

/-- A row under one selector. -/
def chosen (byte : UInt8) (selector : Selector) (mnemonic : String) (slots : List Slot) : Row :=
  (row byte (.plain mnemonic) slots).under [.selector selector]

/-- The four forms of an operation on floating-point elements: packed and scalar, single and double. -/
def floatForms (byte : UInt8) (stem : String) : List Row :=
  [chosen byte .none (stem ++ "ps") [v, w 16], chosen byte .data (stem ++ "pd") [v, w 16],
    chosen byte .repeated (stem ++ "ss") [v, w 4], chosen byte .repeatedNot (stem ++ "sd") [v, w 8]]

/-- The two packed forms of an operation on floating-point elements. -/
def packedForms (byte : UInt8) (stem : String) : List Row :=
  [chosen byte .none (stem ++ "ps") [v, w 16], chosen byte .data (stem ++ "pd") [v, w 16]]

/-- The two forms of an operation on integer elements, in the short and the long vector registers. -/
def integerForms (byte : UInt8) (mnemonic : String) : List Row :=
  [chosen byte .none mnemonic [p, q], chosen byte .data mnemonic [v, w 16]]

/-- The form of an operation on integer elements that only the long vector registers have. -/
def longForm (byte : UInt8) (mnemonic : String) : Row := chosen byte .data mnemonic [v, w 16]

/-- Moves between vector registers and memory. -/
def vectorMoves : List Row :=
  [chosen 0x10 .none "movups" [v, w 16], chosen 0x10 .data "movupd" [v, w 16], chosen 0x10 .repeated "movss" [v, w 4],
    chosen 0x10 .repeatedNot "movsd" [v, w 8], chosen 0x11 .none "movups" [w 16, v],
    chosen 0x11 .data "movupd" [w 16, v], chosen 0x11 .repeated "movss" [w 4, v],
    chosen 0x11 .repeatedNot "movsd" [w 8, v],
    (chosen 0x12 .none "movhlps" [v, .vectorRegister .xmm]).under [.register],
    chosen 0x12 .none "movlps" [v, .memory (some 8)], chosen 0x12 .data "movlpd" [v, .memory (some 8)],
    chosen 0x12 .repeated "movsldup" [v, w 16], chosen 0x12 .repeatedNot "movddup" [v, w 8],
    chosen 0x13 .none "movlps" [.memory (some 8), v], chosen 0x13 .data "movlpd" [.memory (some 8), v],
    (chosen 0x16 .none "movlhps" [v, .vectorRegister .xmm]).under [.register],
    chosen 0x16 .none "movhps" [v, .memory (some 8)], chosen 0x16 .data "movhpd" [v, .memory (some 8)],
    chosen 0x16 .repeated "movshdup" [v, w 16], chosen 0x17 .none "movhps" [.memory (some 8), v],
    chosen 0x17 .data "movhpd" [.memory (some 8), v], chosen 0x28 .none "movaps" [v, w 16],
    chosen 0x28 .data "movapd" [v, w 16], chosen 0x29 .none "movaps" [w 16, v], chosen 0x29 .data "movapd" [w 16, v],
    chosen 0x2b .none "movntps" [.memory (some 16), v], chosen 0x2b .data "movntpd" [.memory (some 16), v],
    chosen 0x2b .repeated "movntss" [.memory (some 4), v], chosen 0x2b .repeatedNot "movntsd" [.memory (some 8), v],
    (chosen 0x50 .none "movmskps" [.reg .dword, .vectorRegister .xmm]).under [.register],
    (chosen 0x50 .data "movmskpd" [.reg .dword, .vectorRegister .xmm]).under [.register],
    (chosen 0x6e .none "movq" [p, .place .qword]).under [.wide], chosen 0x6e .none "movd" [p, .place .dword],
    (chosen 0x6e .data "movq" [v, .place .qword]).under [.wide], chosen 0x6e .data "movd" [v, .place .dword],
    chosen 0x6f .none "movq" [p, q], chosen 0x6f .data "movdqa" [v, w 16], chosen 0x6f .repeated "movdqu" [v, w 16],
    (chosen 0x7e .none "movq" [.place .qword, p]).under [.wide], chosen 0x7e .none "movd" [.place .dword, p],
    (chosen 0x7e .data "movq" [.place .qword, v]).under [.wide], chosen 0x7e .data "movd" [.place .dword, v],
    chosen 0x7e .repeated "movq" [v, w 8], chosen 0x7f .none "movq" [q, p], chosen 0x7f .data "movdqa" [w 16, v],
    chosen 0x7f .repeated "movdqu" [w 16, v], chosen 0xd6 .data "movq" [w 8, v],
    (chosen 0xd6 .repeated "movq2dq" [v, .vectorRegister .mmx]).under [.register],
    (chosen 0xd6 .repeatedNot "movdq2q" [p, .vectorRegister .xmm]).under [.register],
    (chosen 0xd7 .none "pmovmskb" [.reg .dword, .vectorRegister .mmx]).under [.register],
    (chosen 0xd7 .data "pmovmskb" [.reg .dword, .vectorRegister .xmm]).under [.register],
    chosen 0xe7 .none "movntq" [.memory (some 8), p], chosen 0xe7 .data "movntdq" [.memory (some 16), v],
    chosen 0xf0 .repeatedNot "lddqu" [v, .memory (some 16)],
    (chosen 0xf7 .none "maskmovq" [p, .vectorRegister .mmx]).under [.register],
    (chosen 0xf7 .data "maskmovdqu" [v, .vectorRegister .xmm]).under [.register]]

/-- Arithmetic, comparisons and shuffles of floating-point elements. -/
def vectorFloats : List Row :=
  packedForms 0x14 "unpckl" ++ packedForms 0x15 "unpckh" ++ floatForms 0x51 "sqrt" ++
  [chosen 0x52 .none "rsqrtps" [v, w 16], chosen 0x52 .repeated "rsqrtss" [v, w 4], chosen 0x53 .none "rcpps" [v, w 16],
    chosen 0x53 .repeated "rcpss" [v, w 4]] ++
  packedForms 0x54 "and" ++ packedForms 0x55 "andn" ++ packedForms 0x56 "or" ++ packedForms 0x57 "xor" ++
  floatForms 0x58 "add" ++ floatForms 0x59 "mul" ++ floatForms 0x5c "sub" ++ floatForms 0x5d "min" ++
  floatForms 0x5e "div" ++ floatForms 0x5f "max" ++
  [chosen 0x2e .none "ucomiss" [v, w 4], chosen 0x2e .data "ucomisd" [v, w 8], chosen 0x2f .none "comiss" [v, w 4],
    chosen 0x2f .data "comisd" [v, w 8], chosen 0x7c .data "haddpd" [v, w 16],
    chosen 0x7c .repeatedNot "haddps" [v, w 16], chosen 0x7d .data "hsubpd" [v, w 16],
    chosen 0x7d .repeatedNot "hsubps" [v, w 16], chosen 0xd0 .data "addsubpd" [v, w 16],
    chosen 0xd0 .repeatedNot "addsubps" [v, w 16], chosen 0xc2 .none "cmpps" [v, w 16, .signed 1],
    chosen 0xc2 .data "cmppd" [v, w 16, .signed 1], chosen 0xc2 .repeated "cmpss" [v, w 4, .signed 1],
    chosen 0xc2 .repeatedNot "cmpsd" [v, w 8, .signed 1], chosen 0xc6 .none "shufps" [v, w 16, .signed 1],
    chosen 0xc6 .data "shufpd" [v, w 16, .signed 1]]

/-- Conversions between element types. -/
def vectorConversions : List Row :=
  [chosen 0x2a .none "cvtpi2ps" [v, q], chosen 0x2a .data "cvtpi2pd" [v, q],
    chosen 0x2a .repeated "cvtsi2ss" [v, .place .wide], chosen 0x2a .repeatedNot "cvtsi2sd" [v, .place .wide],
    chosen 0x2c .none "cvttps2pi" [p, w 8], chosen 0x2c .data "cvttpd2pi" [p, w 16],
    chosen 0x2c .repeated "cvttss2si" [.reg .wide, w 4], chosen 0x2c .repeatedNot "cvttsd2si" [.reg .wide, w 8],
    chosen 0x2d .none "cvtps2pi" [p, w 8], chosen 0x2d .data "cvtpd2pi" [p, w 16],
    chosen 0x2d .repeated "cvtss2si" [.reg .wide, w 4], chosen 0x2d .repeatedNot "cvtsd2si" [.reg .wide, w 8],
    chosen 0x5a .none "cvtps2pd" [v, w 8], chosen 0x5a .data "cvtpd2ps" [v, w 16],
    chosen 0x5a .repeated "cvtss2sd" [v, w 4], chosen 0x5a .repeatedNot "cvtsd2ss" [v, w 8],
    chosen 0x5b .none "cvtdq2ps" [v, w 16], chosen 0x5b .data "cvtps2dq" [v, w 16],
    chosen 0x5b .repeated "cvttps2dq" [v, w 16], chosen 0xe6 .data "cvttpd2dq" [v, w 16],
    chosen 0xe6 .repeated "cvtdq2pd" [v, w 8], chosen 0xe6 .repeatedNot "cvtpd2dq" [v, w 16]]

/-- Operations on integer elements. -/
def vectorIntegers : List Row :=
  ([(0x60, "punpcklbw"), (0x61, "punpcklwd"), (0x62, "punpckldq")].flatMap fun (byte, mnemonic) =>
    [chosen byte .none mnemonic [p, .vectorPlace .mmx 4], chosen byte .data mnemonic [v, w 16]]) ++
  ([(0x63, "packsswb"), (0x64, "pcmpgtb"), (0x65, "pcmpgtw"), (0x66, "pcmpgtd"), (0x67, "packuswb"),
    (0x68, "punpckhbw"), (0x69, "punpckhwd"), (0x6a, "punpckhdq"), (0x6b, "packssdw"), (0x74, "pcmpeqb"),
    (0x75, "pcmpeqw"), (0x76, "pcmpeqd"), (0xd1, "psrlw"), (0xd2, "psrld"), (0xd3, "psrlq"), (0xd4, "paddq"),
    (0xd5, "pmullw"), (0xd8, "psubusb"), (0xd9, "psubusw"), (0xda, "pminub"), (0xdb, "pand"), (0xdc, "paddusb"),
    (0xdd, "paddusw"), (0xde, "pmaxub"), (0xdf, "pandn"), (0xe0, "pavgb"), (0xe1, "psraw"), (0xe2, "psrad"),
    (0xe3, "pavgw"), (0xe4, "pmulhuw"), (0xe5, "pmulhw"), (0xe8, "psubsb"), (0xe9, "psubsw"), (0xea, "pminsw"),
    (0xeb, "por"), (0xec, "paddsb"), (0xed, "paddsw"), (0xee, "pmaxsw"), (0xef, "pxor"), (0xf1, "psllw"),
    (0xf2, "pslld"), (0xf3, "psllq"), (0xf4, "pmuludq"), (0xf5, "pmaddwd"), (0xf6, "psadbw"), (0xf8, "psubb"),
    (0xf9, "psubw"), (0xfa, "psubd"), (0xfb, "psubq"), (0xfc, "paddb"), (0xfd, "paddw"), (0xfe, "paddd")].flatMap
    fun (byte, mnemonic) => integerForms byte mnemonic) ++
  [longForm 0x6c "punpcklqdq", longForm 0x6d "punpckhqdq", chosen 0x70 .none "pshufw" [p, q, .signed 1],
    chosen 0x70 .data "pshufd" [v, w 16, .signed 1], chosen 0x70 .repeated "pshufhw" [v, w 16, .signed 1],
    chosen 0x70 .repeatedNot "pshuflw" [v, w 16, .signed 1],
    chosen 0xc4 .none "pinsrw" [p, .placeSized .dword 2, .signed 1],
    chosen 0xc4 .data "pinsrw" [v, .placeSized .dword 2, .signed 1],
    (chosen 0xc5 .none "pextrw" [.reg .dword, .vectorRegister .mmx, .signed 1]).under [.register],
    (chosen 0xc5 .data "pextrw" [.reg .dword, .vectorRegister .xmm, .signed 1]).under [.register]] ++
  ([(0x71, 2, "psrlw"), (0x71, 4, "psraw"), (0x71, 6, "psllw"), (0x72, 2, "psrld"), (0x72, 4, "psrad"),
    (0x72, 6, "pslld"), (0x73, 2, "psrlq"), (0x73, 6, "psllq")].flatMap fun (byte, extension, mnemonic) =>
    [(chosen byte .none mnemonic [.vectorRegister .mmx, .signed 1]).under [.extension extension, .register],
      (chosen byte .data mnemonic [.vectorRegister .xmm, .signed 1]).under [.extension extension, .register]]) ++
  [(chosen 0x73 .data "psrldq" [.vectorRegister .xmm, .signed 1]).under [.extension 3, .register],
    (chosen 0x73 .data "pslldq" [.vectorRegister .xmm, .signed 1]).under [.extension 7, .register],
    (chosen 0x78 .data "extrq" [.vectorRegister .xmm, .signed 1, .signed 1]).under [.extension 0, .register],
    (chosen 0x78 .repeatedNot "insertq" [v, .vectorRegister .xmm, .signed 1, .signed 1]).under [.register],
    (chosen 0x79 .data "extrq" [v, .vectorRegister .xmm]).under [.register],
    (chosen 0x79 .repeatedNot "insertq" [v, .vectorRegister .xmm]).under [.register]]

/-- The vector opcodes after `0f`. -/
def twoByteVector : List Row := vectorMoves ++ vectorFloats ++ vectorConversions ++ vectorIntegers

/-- The vector opcodes after `0f 38`. -/
def threeByteVector : List Row :=
  ([(0x00, "pshufb"), (0x01, "phaddw"), (0x02, "phaddd"), (0x03, "phaddsw"), (0x04, "pmaddubsw"), (0x05, "phsubw"),
    (0x06, "phsubd"), (0x07, "phsubsw"), (0x08, "psignb"), (0x09, "psignw"), (0x0a, "psignd"), (0x0b, "pmulhrsw"),
    (0x1c, "pabsb"), (0x1d, "pabsw"), (0x1e, "pabsd")].flatMap fun (byte, mnemonic) => integerForms byte mnemonic) ++
  ([(0x10, "pblendvb"), (0x14, "blendvps"), (0x15, "blendvpd"), (0x17, "ptest"), (0x28, "pmuldq"), (0x29, "pcmpeqq"),
    (0x2b, "packusdw"), (0x37, "pcmpgtq"), (0x38, "pminsb"), (0x39, "pminsd"), (0x3a, "pminuw"), (0x3b, "pminud"),
    (0x3c, "pmaxsb"), (0x3d, "pmaxsd"), (0x3e, "pmaxuw"), (0x3f, "pmaxud"), (0x40, "pmulld"), (0x41, "phminposuw"),
    (0xdb, "aesimc"), (0xdc, "aesenc"), (0xdd, "aesenclast"), (0xde, "aesdec"), (0xdf, "aesdeclast")].map
    fun (byte, mnemonic) => longForm byte mnemonic) ++
  ([(0x20, 8, "pmovsxbw"), (0x21, 4, "pmovsxbd"), (0x22, 2, "pmovsxbq"), (0x23, 8, "pmovsxwd"), (0x24, 4, "pmovsxwq"),
    (0x25, 8, "pmovsxdq"), (0x30, 8, "pmovzxbw"), (0x31, 4, "pmovzxbd"), (0x32, 2, "pmovzxbq"), (0x33, 8, "pmovzxwd"),
    (0x34, 4, "pmovzxwq"), (0x35, 8, "pmovzxdq")].map
    fun (byte, size, mnemonic) => chosen byte .data mnemonic [v, w size]) ++
  [chosen 0x2a .data "movntdqa" [v, .memory (some 16)]] ++
  ([(0xc8, "sha1nexte"), (0xc9, "sha1msg1"), (0xca, "sha1msg2"), (0xcb, "sha256rnds2"), (0xcc, "sha256msg1"),
    (0xcd, "sha256msg2")].map fun (byte, mnemonic) => chosen byte .none mnemonic [v, w 16])

/-- The opcodes after `0f 3a`. -/
def threeByteImmediate : List Row :=
  ([(0x08, 16, "roundps"), (0x09, 16, "roundpd"), (0x0a, 4, "roundss"), (0x0b, 8, "roundsd"), (0x0c, 16, "blendps"),
    (0x0d, 16, "blendpd"), (0x0e, 16, "pblendw"), (0x0f, 16, "palignr"), (0x21, 4, "insertps"), (0x40, 16, "dpps"),
    (0x41, 16, "dppd"), (0x42, 16, "mpsadbw"), (0x44, 16, "pclmulqdq"), (0x60, 16, "pcmpestrm"),
    (0x61, 16, "pcmpestri"), (0x62, 16, "pcmpistrm"), (0x63, 16, "pcmpistri"), (0xdf, 16, "aeskeygenassist")].map
    fun (byte, size, mnemonic) => chosen byte .data mnemonic [v, w size, .signed 1]) ++
  [chosen 0x0f .none "palignr" [p, q, .signed 1], chosen 0xcc .none "sha1rnds4" [v, w 16, .signed 1],
    chosen 0x14 .data "pextrb" [.placeSized .dword 1, v, .signed 1],
    chosen 0x15 .data "pextrw" [.placeSized .dword 2, v, .signed 1],
    (chosen 0x16 .data "pextrq" [.place .qword, v, .signed 1]).under [.wide],
    chosen 0x16 .data "pextrd" [.place .dword, v, .signed 1],
    chosen 0x17 .data "extractps" [.place .dword, v, .signed 1],
    chosen 0x20 .data "pinsrb" [v, .placeSized .dword 1, .signed 1],
    (chosen 0x22 .data "pinsrq" [v, .place .qword, .signed 1]).under [.wide],
    chosen 0x22 .data "pinsrd" [v, .place .dword, .signed 1]]

end TaintReplay.X86.Table
