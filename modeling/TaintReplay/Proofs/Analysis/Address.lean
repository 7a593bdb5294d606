import Mathlib.Data.Int.ModEq
import TaintReplay.Proofs.Analysis.Union
import TaintReplay.Proofs.X86.Address

/-!
# Effective addresses

`X86.Address.wrapped` is what an address stands for when its registers are of a given width: each counts with its lowest
bytes, and the sum of base, scaled index and displacement wraps around at that width. The analysis adds up whole
registers instead, modulo `2 ^ 64` (`wrapped_of_effective`). So it is right about registers of eight bytes, and about
registers of four bytes iff the sum happens to be below `2 ^ 32`. A fixed address it takes as it stands, without a sign.
Without the registers that it needs an address is unknown (`effective_eq_none_iff`), the program counter apart, which is
known to be at the next instruction. `address_of_memory` says so of the operands of a record.
-/

namespace TaintReplay

namespace X86

/-! ## The sum -/

/-- The value of the lowest `width` bytes of a register in an address. -/
def Reg.lowValue (r : Reg) (width : Nat) (next : UInt64) (registers : RegisterFile) : Option Int :=
  (r.addressValue next registers).map fun value => (value.toNat : Int) % 2 ^ (8 * width)

/-- What an address stands for when its registers are `width` bytes wide: the sum of base, scaled index and
displacement modulo `2 ^ (8 * width)`. -/
def Address.wrapped (a : Address) (width : Nat) (next : UInt64) (registers : RegisterFile) : Option Int :=
  match a with
  | absolute value => some ((value.toNat : Int) % 2 ^ (8 * width))
  | sum base index displacement => do
    let start ← base.elim (some 0) (·.lowValue width next registers)
    let offset ← index.elim (some 0) fun scaled =>
      (scaled.1.lowValue width next registers).map (· * (scaled.2 : Int))
    return (start + offset + displacement) % 2 ^ (8 * width)

/-! ## Words modulo their size -/

theorem toNat_add_modEq (a b : UInt64) : ((a + b).toNat : Int) ≡ a.toNat + b.toNat [ZMOD 2 ^ 64] := by
  rw [UInt64.toNat_add]
  push_cast
  exact Int.mod_modEq _ _

theorem toNat_mul_modEq (a b : UInt64) : ((a * b).toNat : Int) ≡ a.toNat * b.toNat [ZMOD 2 ^ 64] := by
  rw [UInt64.toNat_mul]
  push_cast
  exact Int.mod_modEq _ _

theorem toNat_ofNat_modEq (n : Nat) : ((UInt64.ofNat n).toNat : Int) ≡ n [ZMOD 2 ^ 64] := by
  rw [UInt64.toNat_ofNat']
  push_cast
  exact Int.mod_modEq _ _

theorem toNat_ofInt_modEq (n : Int) : ((UInt64.ofInt n).toNat : Int) ≡ n [ZMOD 2 ^ 64] := by
  have hpos : 0 ≤ n % 2 ^ 64 := Int.emod_nonneg _ (by decide)
  refine (toNat_ofNat_modEq _).trans ?_
  rw [Int.toNat_of_nonneg hpos]
  exact Int.mod_modEq _ _

/-! ## The address that is worked out -/

section Effective

theorem Reg.addressValue_eq_none_iff (r : Reg) (next : UInt64) (registers : RegisterFile) :
    r.addressValue next registers = none ↔ r.full ≠ .counter ∧ registers r.full = none := by
  unfold Reg.addressValue
  by_cases hcounter : r.full = .counter <;> simp [hcounter]

variable {next : UInt64} {registers : RegisterFile}

theorem Address.effective_sum (base : Option Reg) (index : Option (Reg × Nat)) (displacement : Int) :
    (sum base index displacement).effective next registers =
      (base.elim (some 0) (·.addressValue next registers)).bind fun start =>
        (index.elim (some 0) fun scaled => (scaled.1.addressValue next registers).map (· * UInt64.ofNat scaled.2)).bind
          fun offset => some (start + offset + UInt64.ofInt displacement) := by
  cases base <;> cases index <;> rfl

/-- An address is unknown iff a register that it needs is, the program counter apart. -/
theorem Address.effective_eq_none_iff (a : Address) : a.effective next registers = none ↔
    ∃ r ∈ a.registers, r.full ≠ .counter ∧ registers r.full = none := by
  simp only [← Reg.addressValue_eq_none_iff _ next]
  cases a with
  | absolute value => simp [effective, Address.registers]
  | sum base index displacement =>
    rw [effective_sum]
    cases base with
    | none =>
      cases index with
      | none => simp [Address.registers]
      | some scaled => cases hi : scaled.1.addressValue next registers <;> simp [Address.registers, hi]
    | some r =>
      cases index with
      | none => cases hb : r.addressValue next registers <;> simp [Address.registers, hb]
      | some scaled =>
        cases hb : r.addressValue next registers <;> cases hi : scaled.1.addressValue next registers <;>
          simp [Address.registers, hb, hi]

/-- The lowest bytes of the value of a base. -/
theorem lowValue_of_base {base : Option Reg} {start : UInt64}
    (h : base.elim (some 0) (·.addressValue next registers) = some start) (width : Nat) :
    base.elim (some 0) (·.lowValue width next registers) = some ((start.toNat : Int) % 2 ^ (8 * width)) := by
  cases base with
  | none =>
    obtain rfl := Option.some.inj h
    rfl
  | some r =>
    have hr : r.addressValue next registers = some start := h
    show r.lowValue width next registers = _
    rw [Reg.lowValue, hr]
    rfl

/-- The scaled lowest bytes of an index agree with the scaled index, modulo their size. -/
theorem lowValue_of_index {index : Option (Reg × Nat)} {offset : UInt64}
    (h : index.elim (some 0) (fun scaled => (scaled.1.addressValue next registers).map (· * UInt64.ofNat scaled.2)) =
      some offset) {width : Nat} (hwidth : width ≤ 8) :
    ∃ low, index.elim (some 0) (fun scaled =>
      (scaled.1.lowValue width next registers).map (· * (scaled.2 : Int))) = some low ∧
        low ≡ offset.toNat [ZMOD 2 ^ (8 * width)] := by
  have hdvd : (2 : Int) ^ (8 * width) ∣ 2 ^ 64 := pow_dvd_pow 2 (by omega)
  cases index with
  | none =>
    obtain rfl := Option.some.inj h
    exact ⟨0, rfl, rfl⟩
  | some scaled =>
    obtain ⟨value, hvalue, rfl⟩ := Option.map_eq_some_iff.1 h
    refine ⟨(value.toNat : Int) % 2 ^ (8 * width) * scaled.2, ?_, ?_⟩
    · show (scaled.1.lowValue width next registers).map _ = _
      rw [Reg.lowValue, hvalue]
      rfl
    · calc (value.toNat : Int) % 2 ^ (8 * width) * scaled.2
        _ ≡ value.toNat * scaled.2 [ZMOD 2 ^ (8 * width)] := (Int.mod_modEq _ _).mul_right _
        _ ≡ value.toNat * (UInt64.ofNat scaled.2).toNat [ZMOD 2 ^ (8 * width)] :=
          ((toNat_ofNat_modEq scaled.2).symm.of_dvd hdvd).mul_left _
        _ ≡ (value * UInt64.ofNat scaled.2).toNat [ZMOD 2 ^ (8 * width)] :=
          (toNat_mul_modEq value _).symm.of_dvd hdvd

/-- The address that is worked out from whole registers agrees with the one of any width in the bytes of that width. -/
theorem Address.wrapped_of_effective {a : Address} {x : UInt64} (h : a.effective next registers = some x) {width : Nat}
    (hwidth : width ≤ 8) : a.wrapped width next registers = some ((x.toNat : Int) % 2 ^ (8 * width)) := by
  have hdvd : (2 : Int) ^ (8 * width) ∣ 2 ^ 64 := pow_dvd_pow 2 (by omega)
  cases a with
  | absolute value =>
    obtain rfl := Option.some.inj h
    rfl
  | sum base index displacement =>
    rw [effective_sum] at h
    obtain ⟨start, hstart, h⟩ := Option.bind_eq_some_iff.1 h
    obtain ⟨offset, hoffset, h⟩ := Option.bind_eq_some_iff.1 h
    obtain rfl := Option.some.inj h
    obtain ⟨low, hlow, hcongr⟩ := lowValue_of_index hoffset hwidth
    have hsum : (start.toNat : Int) % 2 ^ (8 * width) + low + displacement ≡
        (start + offset + UInt64.ofInt displacement).toNat [ZMOD 2 ^ (8 * width)] := by
      calc (start.toNat : Int) % 2 ^ (8 * width) + low + displacement
        _ ≡ start.toNat + offset.toNat + (UInt64.ofInt displacement).toNat [ZMOD 2 ^ (8 * width)] :=
          ((Int.mod_modEq _ _).add hcongr).add ((toNat_ofInt_modEq displacement).symm.of_dvd hdvd)
        _ ≡ (start + offset).toNat + (UInt64.ofInt displacement).toNat [ZMOD 2 ^ (8 * width)] :=
          ((toNat_add_modEq start offset).symm.of_dvd hdvd).add_right _
        _ ≡ (start + offset + UInt64.ofInt displacement).toNat [ZMOD 2 ^ (8 * width)] :=
          (toNat_add_modEq _ _).symm.of_dvd hdvd
    unfold Address.wrapped
    dsimp only
    rw [lowValue_of_base hstart width, hlow]
    exact congrArg some hsum

/-- Formed addresses and fixed ones are four or eight bytes wide. -/
theorem Address.width_eq {a : Address} (h : a.Formed ∨ ∃ value, a = .absolute value) : a.width = 4 ∨ a.width = 8 := by
  cases a with
  | absolute value => exact .inr rfl
  | sum base index displacement =>
    obtain h | ⟨value, hvalue⟩ := h
    · exact h.1
    · cases hvalue

/-- An address is what stands for it at its own width iff that is eight bytes, or the sum is below `2 ^ 32`. -/
theorem Address.wrapped_width_iff {a : Address} {x : UInt64} (h : a.effective next registers = some x)
    (hwidth : a.width = 4 ∨ a.width = 8) :
    a.wrapped a.width next registers = some (x.toNat : Int) ↔ a.width = 8 ∨ x.toNat < 2 ^ 32 := by
  have hx := x.toNat_lt
  rw [wrapped_of_effective h (by omega), Option.some.injEq]
  obtain hw | hw := hwidth
  · rw [hw]
    constructor
    · intro heq
      right
      omega
    · intro hlt
      omega
  · rw [hw]
    exact ⟨fun _ => .inl rfl, fun _ => by omega⟩

end Effective

/-- A displacement of four bytes is its own extension by sign iff its sign is clear. -/
theorem eq_ofInt_bmod_iff {value : UInt64} (h : value.toNat < 2 ^ 32) :
    value = UInt64.ofInt (Int.bmod value.toNat (2 ^ 32)) ↔ value.toNat < 2 ^ 31 := by
  have hofInt (n : Int) : (UInt64.ofInt n).toNat = (n % 2 ^ 64).toNat := by
    rw [UInt64.ofInt, UInt64.toNat_ofNat']
    omega
  rw [← UInt64.toNat_inj, hofInt, Int.bmod_def]
  split <;> omega

end X86

/-! ## Records -/

namespace Shadow

variable (s : Shadow) {i : Instruction} {d : X86.Instruction} (registers : RegisterFile)

/-- The record of a memory operand has the effective address, as far as it is known. -/
theorem kind_of_memory {n : Nat} {size : Option Nat} {segment : Option X86.Segment} {a : X86.Address}
    (ha : d.operands[n]? = some (.memory size segment a)) :
    ((s.step d i registers).2.operands[n]?).map (·.kind) =
      some (.memory (a.effective i.next registers) d.memorySize) := by
  have hkind : (resolveOperand d i.next (some registers) (.memory size segment a)).1 =
      .memory (a.effective i.next registers) d.memorySize := by
    unfold resolveOperand
    dsimp only [Option.bind_some]
    cases a.effective i.next registers <;> rfl
  rw [← List.getElem?_map, operands_step, kinds_operandsOf, resolve, List.map_map, List.getElem?_map, ha]
  exact congrArg some hkind

/-- **The address of a memory operand is the sum of whole registers.** The operand has registers of one width and a
displacement of four bytes with its sign, or a fixed address. The address is unknown iff a register that it needs is,
the program counter apart. A known one is base, scaled index and displacement modulo `2 ^ 64`. What the address stands
for at the width of its registers are the lowest bytes of this sum, so it is the sum itself iff the registers have eight
bytes or the sum is below `2 ^ 32`. A fixed address of four bytes is not extended by its sign. -/
theorem address_of_memory (hd : X86.decodeWhole i.opcode = some d) :
    ∃ j t k, Analyzer.disassemble s i = .ok j ∧ Analyzer.evaluate s j registers = .ok (t, k) ∧
      j.next = i.address + UInt64.ofNat i.opcode.length ∧
      ∀ (n : Nat) size segment (a : X86.Address), d.operands[n]? = some (X86.Operand.memory size segment a) →
        (a.Formed ∨ d.HasOffset ∧ ∃ value, a = .absolute value) ∧
        ∃ address, (k.operands[n]?).map (·.kind) = some (.memory address d.memorySize) ∧
          (address = none ↔ ∃ r ∈ a.registers, r.full ≠ .counter ∧ registers r.full = none) ∧
          ∀ x, address = some x →
            a.wrapped 8 j.next registers = some (x.toNat : Int) ∧
            a.wrapped a.width j.next registers = some ((x.toNat : Int) % 2 ^ (8 * a.width)) ∧
            (a.wrapped a.width j.next registers = some (x.toNat : Int) ↔ a.width = 8 ∨ x.toNat < 2 ^ 32) ∧
            ∀ value, a = .absolute value → x = value ∧ (value.toNat < 2 ^ 32 →
              (x = UInt64.ofInt (Int.bmod value.toNat (2 ^ 32)) ↔ value.toNat < 2 ^ 31)) := by
  refine ⟨describe d i, (s.step d (describe d i) registers).1, (s.step d (describe d i) registers).2,
    s.disassemble_of_decodes hd, s.evaluate_describe hd registers, rfl, fun n size segment a ha => ?_⟩
  have hformed := X86.formed_of_mem_operands (X86.decode_of_decodeWhole hd).1 (List.mem_of_getElem? ha)
  have hwidth : a.width = 4 ∨ a.width = 8 := X86.Address.width_eq (hformed.imp_right And.right)
  refine ⟨hformed, a.effective (describe d i).next registers, s.kind_of_memory registers ha,
    a.effective_eq_none_iff, fun x hx => ⟨?_, ?_, ?_, ?_⟩⟩
  · have hlt := x.toNat_lt
    rw [X86.Address.wrapped_of_effective hx (Nat.le_refl 8), Option.some.injEq]
    omega
  · exact X86.Address.wrapped_of_effective hx (by omega)
  · exact X86.Address.wrapped_width_iff hx hwidth
  · rintro value rfl
    obtain rfl := Option.some.inj hx
    exact ⟨rfl, X86.eq_ofInt_bmod_iff⟩

/-- A move from memory at base, index times four and a negative displacement. -/
theorem address_of_memory_load :
    let i : Instruction := { address := 0x1000, thread := 1, opcode := [0x48, 0x8b, 0x44, 0x8b, 0xf8] }
    let registers : RegisterFile := fun r => if r = .general 3 then some 0x2000 else if r = .rcx then some 2 else none
    ∃ j t k, Analyzer.disassemble ({} : Shadow) i = .ok j ∧ Analyzer.evaluate ({} : Shadow) j registers = .ok (t, k) ∧
      (k.operands[1]?).map (·.kind) = some (.memory (some 0x2000) 8) := by
  intro i registers
  let a : X86.Address := .sum (some ⟨.qword, 3⟩) (some (⟨.qword, 1⟩, 4)) (-8)
  have hd : X86.decodeWhole i.opcode = some ⟨.mov, [.register ⟨.qword, 0⟩, .memory (some 8) none a], [], 5⟩ := by
    decide +kernel
  obtain ⟨j, t, k, hj, hk, -, hmemory⟩ := address_of_memory {} registers hd
  obtain rfl : describe _ i = j := Except.ok.inj ((disassemble_of_decodes {} hd).symm.trans hj)
  obtain ⟨-, address, hkind, hnone, hsome⟩ := hmemory 1 (some 8) none a rfl
  refine ⟨_, t, k, hj, hk, ?_⟩
  rw [hkind]
  cases haddress : address with
  | none =>
    obtain ⟨r, hr, -, hunknown⟩ := hnone.1 haddress
    have hknown : ∀ r ∈ a.registers, registers r.full ≠ none := by decide +kernel
    exact absurd hunknown (hknown r hr)
  | some x =>
    have hwrapped : a.wrapped 8 0x1005 registers = some 0x2000 := by decide +kernel
    have hx := Option.some.inj (hwrapped.symm.trans (hsome x haddress).1)
    have heq : x = 0x2000 := UInt64.toNat_inj.1 (by exact_mod_cast hx.symm)
    rw [heq]
    rfl

/-- An address of a four-byte register with a dirty upper half is taken for a sum above `2 ^ 32`, and a fixed address of
four bytes with its sign set for one in the lower half of the address space. -/
theorem exists_address_not_wrapped :
    let narrow : Instruction := { address := 0x1000, thread := 1, opcode := [0x67, 0x8b, 0x07] }
    let fixed : Instruction := { address := 0x1000, thread := 1, opcode := [0x8b, 0x04, 0x25, 0x00, 0x00, 0x00, 0x80] }
    let registers : RegisterFile := fun r => if r = .general 7 then some 0x100003000 else none
    let a : X86.Address := .sum (some ⟨.dword, 7⟩) none 0
    (X86.decodeWhole narrow.opcode).map (·.operands) = some [.register ⟨.dword, 0⟩, .memory (some 4) none a] ∧
      a.width = 4 ∧ a.wrapped a.width 0x1003 registers = some 0x3000 ∧
      (feed {} narrow registers).2.map (·.operands.map (·.kind)) =
        some [.register "eax", .memory (some 0x100003000) 4] ∧
      (X86.decodeWhole fixed.opcode).map (·.operands) =
        some [.register ⟨.dword, 0⟩, .memory (some 4) none (.absolute 0x80000000)] ∧
      UInt64.ofInt (Int.bmod 0x80000000 (2 ^ 32)) = 0xffffffff80000000 ∧
      (feed {} fixed registers).2.map (·.operands.map (·.kind)) =
        some [.register "eax", .memory (some 0x80000000) 4] := by
  decide +kernel

end Shadow

end TaintReplay
