import TaintReplay.X86.Table.Vector

/-!
# Vector opcodes with an extra source

Behind a VEX byte the vector opcodes have names that begin with `v`, and most operations of two vectors take their first
source from a register of its own. Their rows come from those of the plain vector opcodes (`extendedRow?`); the
operations that exist only there have rows of their own, as `extendedTwoByte` and the lists after it say. Behind an EVEX
byte only the moves of aligned and unaligned vectors are listed.
-/

namespace TaintReplay.X86.Table

private def target : Slot := .vector .xmm

private def source : Slot := .vectorSource .xmm

private def place (size : Nat) : Slot := .vectorPlace .xmm size

/-- Operations into a vector that take no extra source. -/
def twoOperandNames : List String :=
  ["movups", "movupd", "movsldup", "movddup", "movshdup", "movaps", "movapd", "movd", "movq", "movdqa", "movdqu",
    "sqrtps", "sqrtpd", "rsqrtps", "rcpps", "ucomiss", "ucomisd", "comiss", "comisd", "cvtps2pd", "cvtpd2ps",
    "cvtdq2ps", "cvtps2dq", "cvttps2dq", "cvttpd2dq", "cvtdq2pd", "cvtpd2dq", "pshufd", "pshufhw", "pshuflw", "pabsb", "pabsw",
    "pabsd", "ptest", "phminposuw", "aesimc", "pmovsxbw", "pmovsxbd", "pmovsxbq", "pmovsxwd", "pmovsxwq", "pmovsxdq",
    "pmovzxbw", "pmovzxbd", "pmovzxbq", "pmovzxwd", "pmovzxwq", "pmovzxdq", "roundps", "roundpd", "pcmpestrm",
    "pcmpestri", "pcmpistrm", "pcmpistri", "aeskeygenassist", "lddqu", "movntdqa", "maskmovdqu"]

/-- Operations without a form behind a VEX byte, or whose forms there have rows of their own. -/
def plainOnlyNames : List String :=
  ["movss", "movsd", "movntss", "movntsd", "extrq", "insertq", "pblendvb", "blendvps", "blendvpd", "sha1nexte",
    "sha1msg1", "sha1msg2", "sha256rnds2", "sha256msg1", "sha256msg2", "sha1rnds4"]

/-- Operations on short vectors only. -/
def shortNames : List String :=
  ["movd", "movq", "movlps", "movlpd", "movhps", "movhpd", "movhlps", "movlhps", "pinsrb", "pinsrw", "pinsrd", "pinsrq",
    "pextrb", "pextrw", "pextrd", "pextrq", "extractps", "insertps", "maskmovdqu", "phminposuw", "aesimc",
    "aeskeygenassist", "pcmpestrm", "pcmpestri", "pcmpistrm", "pcmpistri", "dppd"]

/-- Operations on one element, for which the length of the vectors has no meaning. -/
def scalarNames : List String :=
  (["add", "mul", "sub", "min", "div", "max", "sqrt", "round", "cmp", "ucomi", "comi", "cvtsi2"].flatMap fun stem =>
    [stem ++ "ss", stem ++ "sd"]) ++
  ["rsqrtss", "rcpss", "cvtss2sd", "cvtsd2ss", "cvttss2si", "cvttsd2si", "cvtss2si", "cvtsd2si"]

/-- Conversions to elements of more bytes. -/
def wideningNames : List String :=
  ["cvtps2pd", "cvtdq2pd", "pmovsxbw", "pmovsxbd", "pmovsxbq", "pmovsxwd", "pmovsxwq", "pmovsxdq", "pmovzxbw",
    "pmovzxbd", "pmovzxbq", "pmovzxwd", "pmovzxwq", "pmovzxdq"]

/-- Conversions to elements of fewer bytes. -/
def narrowingNames : List String := ["cvtpd2ps", "cvttpd2dq", "cvtpd2dq"]

/-- Shifts, whose count stays in a short vector. -/
def shiftNames : List String := ["psrlw", "psrld", "psrlq", "psraw", "psrad", "psllw", "pslld", "psllq"]

/-- A slot in vector registers of twice the length. -/
def longSlot : Slot → Slot
  | .vector .xmm => .vector .ymm
  | .vectorPlace .xmm _ => .vectorPlace .ymm 32
  | .vectorRegister .xmm => .vectorRegister .ymm
  | .vectorSource .xmm => .vectorSource .ymm
  | .memory (some 16) => .memory (some 32)
  | slot => slot

/-- The slots of an operation on vectors of twice the length. -/
def longSlots (mnemonic : String) (slots : List Slot) : List Slot :=
  if mnemonic ∈ scalarNames then slots
  else slots.map fun
    | .vectorPlace .xmm size =>
      if mnemonic ∈ wideningNames then .vectorPlace .xmm (2 * size)
      else if mnemonic ∈ shiftNames then .vectorPlace .xmm size
      else longSlot (.vectorPlace .xmm size)
    | .vector .xmm => if mnemonic ∈ narrowingNames then .vector .xmm else .vector .ymm
    | slot => longSlot slot

/-- The slots of an operation with the extra source among them, if it takes one. A shift by an immediate writes to that
register. -/
def sourcedSlots (mnemonic : String) : List Slot → List Slot
  | .vector .xmm :: rest =>
    if mnemonic ∈ twoOperandNames then .vector .xmm :: rest else .vector .xmm :: .vectorSource .xmm :: rest
  | [.vectorRegister .xmm, .signed n] => [.vectorSource .xmm, .vectorRegister .xmm, .signed n]
  | slots => slots

/-- The row, under the demand that the extra source is left out if no slot takes it. -/
def checked (r : Row) : Row := if r.slots.any (·.isSource) then r else r.under [.unsourced]

/-- The row that a plain vector row gives behind a VEX byte, for vectors of the given length. -/
def extendedRow? (long : Bool) (r : Row) : Option Row :=
  match r.opcode with
  | .plain mnemonic =>
    let slots := sourcedSlots mnemonic r.slots
    let short := slots.any fun
      | .vector .mmx | .vectorPlace .mmx _ | .vectorRegister .mmx => true
      | _ => false
    if short || mnemonic ∈ plainOnlyNames || long && mnemonic ∈ shortNames then none
    else
      some (checked
        { r with opcode := .plain ("v" ++ mnemonic), slots := if long then longSlots mnemonic slots else slots })
  | _ => none

/-- A row for vectors of the given length. -/
private def sized (long : Bool) (byte : UInt8) (selector : Selector) (mnemonic : String) (slots : List Slot) : Row :=
  checked (chosen byte selector mnemonic (if long then slots.map longSlot else slots))

/-- Two rows, for elements of four and of eight bytes, which the wide bit tells apart. -/
private def elementForms (long : Bool) (byte : UInt8) (four eight : String) (slots : List Slot) : List Row :=
  [(sized long byte .data eight slots).under [.wide], sized long byte .data four slots]

/-- The opcodes after `0f` that only a VEX byte has. -/
def extendedTwoByte (long : Bool) : List Row :=
  [checked (chosen 0x77 .none (if long then "vzeroall" else "vzeroupper") []),
    (checked (chosen 0xae .none "vldmxcsr" [.memory (some 4)])).under [.extension 2, .memory],
    (checked (chosen 0xae .none "vstmxcsr" [.memory (some 4)])).under [.extension 3, .memory]] ++
  ([(Selector.repeated, "vmovss", 4), (.repeatedNot, "vmovsd", 8)].flatMap fun (selector, mnemonic, size) =>
    [(checked (chosen 0x10 selector mnemonic [target, source, .vectorRegister .xmm])).under [.register],
      checked (chosen 0x10 selector mnemonic [target, .memory (some size)]),
      (checked (chosen 0x11 selector mnemonic [.vectorRegister .xmm, source, target])).under [.register],
      checked (chosen 0x11 selector mnemonic [.memory (some size), target])])

/-- The operations that multiply and add in one step. The operation and the order of its operands make up the byte. -/
def fusedOperations (long : Bool) : List Row :=
  [(0x90, "132"), (0xa0, "213"), (0xb0, "231")].flatMap fun (base, order) =>
    ([(6, "vfmaddsub"), (7, "vfmsubadd"), (8, "vfmadd"), (10, "vfmsub"), (12, "vfnmadd"), (14, "vfnmsub")].flatMap
      fun (offset, stem) =>
        elementForms long (base + offset) (stem ++ order ++ "ps") (stem ++ order ++ "pd") [target, source, place 16]) ++
    ([(9, "vfmadd"), (11, "vfmsub"), (13, "vfnmadd"), (15, "vfnmsub")].flatMap fun (offset, stem) =>
      [(chosen (base + offset) .data (stem ++ order ++ "sd") [target, source, place 8]).under [.wide],
        chosen (base + offset) .data (stem ++ order ++ "ss") [target, source, place 4]])

/-- The operations on bits of general registers that take an extra source. -/
def extendedBits : List Row :=
  ([("blsr", 1), ("blsmsk", 2), ("blsi", 3)].map fun (mnemonic, extension) =>
    (chosen 0xf3 .none mnemonic [.source .wide, .place .wide]).under [.extension extension]) ++
  ([(0xf5, Selector.none, "bzhi"), (0xf7, .none, "bextr"), (0xf7, .data, "shlx"), (0xf7, .repeated, "sarx"),
    (0xf7, .repeatedNot, "shrx")].map fun (byte, selector, mnemonic) =>
    chosen byte selector mnemonic [.reg .wide, .place .wide, .source .wide]) ++
  [(0xf2, Selector.none, "andn"), (0xf5, .repeated, "pext"), (0xf5, .repeatedNot, "pdep"),
    (0xf6, .repeatedNot, "mulx")].map fun (byte, selector, mnemonic) =>
    chosen byte selector mnemonic [.reg .wide, .source .wide, .place .wide]

/-- The opcodes after `0f 38` that only a VEX byte has. -/
def extendedThreeByte (long : Bool) : List Row :=
  [sized long 0x0c .data "vpermilps" [target, source, place 16],
    sized long 0x0d .data "vpermilpd" [target, source, place 16],
    sized long 0x0e .data "vtestps" [target, place 16], sized long 0x0f .data "vtestpd" [target, place 16],
    checked (chosen 0x13 .data "vcvtph2ps" (if long then [.vector .ymm, place 16] else [target, place 8])),
    sized long 0x2c .data "vmaskmovps" [target, source, .memory (some 16)],
    sized long 0x2d .data "vmaskmovpd" [target, source, .memory (some 16)],
    sized long 0x2e .data "vmaskmovps" [.memory (some 16), source, target],
    sized long 0x2f .data "vmaskmovpd" [.memory (some 16), source, target],
    sized long 0x46 .data "vpsravd" [target, source, place 16]] ++
  elementForms long 0x45 "vpsrlvd" "vpsrlvq" [target, source, place 16] ++
  elementForms long 0x47 "vpsllvd" "vpsllvq" [target, source, place 16] ++
  elementForms long 0x8c "vpmaskmovd" "vpmaskmovq" [target, source, .memory (some 16)] ++
  elementForms long 0x8e "vpmaskmovd" "vpmaskmovq" [.memory (some 16), source, target] ++
  ([(0x18, 4, "vbroadcastss"), (0x58, 4, "vpbroadcastd"), (0x59, 8, "vpbroadcastq"), (0x78, 1, "vpbroadcastb"),
    (0x79, 2, "vpbroadcastw")].map fun (byte, size, mnemonic) =>
    checked (chosen byte .data mnemonic [if long then .vector .ymm else target, place size])) ++
  (if long then
    [checked (chosen 0x19 .data "vbroadcastsd" [.vector .ymm, place 8]),
      checked (chosen 0x1a .data "vbroadcastf128" [.vector .ymm, .memory (some 16)]),
      checked (chosen 0x5a .data "vbroadcasti128" [.vector .ymm, .memory (some 16)]),
      sized long 0x16 .data "vpermps" [target, source, place 16],
      sized long 0x36 .data "vpermd" [target, source, place 16]]
  else extendedBits) ++
  fusedOperations long

/-- The opcodes after `0f 3a` that only a VEX byte has. -/
def extendedImmediate (long : Bool) : List Row :=
  [sized long 0x02 .data "vpblendd" [target, source, place 16, .signed 1],
    sized long 0x04 .data "vpermilps" [target, place 16, .signed 1],
    sized long 0x05 .data "vpermilpd" [target, place 16, .signed 1],
    checked (chosen 0x1d .data "vcvtps2ph"
      (if long then [place 16, .vector .ymm, .signed 1] else [place 8, target, .signed 1]))] ++
  if long then
    [(sized long 0x00 .data "vpermq" [target, place 16, .signed 1]).under [.wide],
      (sized long 0x01 .data "vpermpd" [target, place 16, .signed 1]).under [.wide],
      sized long 0x06 .data "vperm2f128" [target, source, place 16, .signed 1],
      sized long 0x46 .data "vperm2i128" [target, source, place 16, .signed 1],
      chosen 0x18 .data "vinsertf128" [.vector .ymm, .vectorSource .ymm, place 16, .signed 1],
      chosen 0x38 .data "vinserti128" [.vector .ymm, .vectorSource .ymm, place 16, .signed 1],
      checked (chosen 0x19 .data "vextractf128" [place 16, .vector .ymm, .signed 1]),
      checked (chosen 0x39 .data "vextracti128" [place 16, .vector .ymm, .signed 1])]
  else [checked (chosen 0xf0 .repeatedNot "rorx" [.reg .wide, .place .wide, .signed 1])]

/-- The moves behind an EVEX byte, for a bank of vector registers of so many bytes. -/
def maskedMoves (bank : Bank) (size : Nat) : List Row :=
  [chosen 0x10 .none "vmovups" [.maskedVector bank, .vectorPlace bank size],
    chosen 0x10 .data "vmovupd" [.maskedVector bank, .vectorPlace bank size],
    chosen 0x28 .none "vmovaps" [.maskedVector bank, .vectorPlace bank size],
    chosen 0x28 .data "vmovapd" [.maskedVector bank, .vectorPlace bank size]]

end TaintReplay.X86.Table
