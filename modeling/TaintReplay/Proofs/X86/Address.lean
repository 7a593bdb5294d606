import Mathlib.Algebra.Ring.Int.Defs
import Mathlib.Algebra.Ring.Nat
import TaintReplay.Proofs.X86.Operands

/-!
# The addresses of decoded instructions

What `decode` gives as the address of a memory operand is `Formed`: a fixed address is a displacement of four bytes, and
a sum has registers of one width, four or eight bytes, a scale that is a power of two up to eight, and a displacement of
at most four bytes with its sign (`yields_readAddress_formed`). The one exception are the operands of offset slots,
whose address may be any fixed one (`formed_of_mem_operands`).
-/

namespace TaintReplay.X86

open Reader

/-! ## Numbers -/

/-- A number of `n` bytes is less than `256 ^ n`. -/
theorem yields_unsigned_lt (n : Nat) : Yields (unsigned n) (· < 256 ^ n) := by
  induction n with
  | zero => exact yields_pure (by decide)
  | succ n ih =>
    refine yields_bind (yields_any _) fun low _ => yields_bind ih fun high hhigh => yields_pure ?_
    have hlow : low.toNat < 256 := low.toNat_lt
    rw [Nat.pow_succ]
    omega

/-- The number fits in four bytes with a sign. -/
def InSignedRange (value : Int) : Prop := -2 ^ 31 ≤ value ∧ value < 2 ^ 31

theorem inSignedRange_bmod {m : Nat} (hpos : 0 < m) (hle : m ≤ 2 ^ 32) (value : Int) :
    InSignedRange (Int.bmod value m) := by
  have hlow := Int.le_bmod (x := value) hpos
  have hhigh := Int.bmod_lt (x := value) hpos
  constructor <;> omega

theorem yields_signed {n : Nat} (hn : n ≤ 4) : Yields (signed n) InSignedRange :=
  yields_bind (yields_any _) fun value _ => yields_pure
    (inSignedRange_bmod (Nat.two_pow_pos _) (Nat.pow_le_pow_right (Nat.succ_pos 1) (by omega)) value)

/-! ## Addresses -/

/-- The number of bytes of the registers of an address; eight if there are none. -/
def Address.width (a : Address) : Nat := (a.registers.head?.map Reg.size).getD 8

/-- The address has a form that the bytes of an instruction can give. -/
def Address.Formed : Address → Prop
  | absolute value => value.toNat < 2 ^ 32
  | a@(sum _ index displacement) =>
    (a.width = 4 ∨ a.width = 8) ∧ (∀ r ∈ a.registers, r.size = a.width) ∧
      (∀ scaled ∈ index, scaled.2 ∈ [1, 2, 4, 8]) ∧ InSignedRange displacement

section Reading

variable (e : Encoding)

theorem yields_readDisplacement : Yields e.readDisplacement InSignedRange := by
  unfold Encoding.readDisplacement
  split
  · exact yields_signed (by decide)
  · exact yields_signed (Nat.le_refl 4)
  · exact yields_pure ⟨by decide, by decide⟩

/-- The width of the registers that addresses are made of. -/
def Encoding.addressWidth : Nat := if e.lead.addressSize then 4 else 8

theorem size_addressBank (index : Nat) : (Reg.mk e.addressBank index).size = e.addressWidth := by
  unfold Encoding.addressBank Encoding.addressWidth
  cases e.lead.addressSize <;> rfl

theorem addressWidth_eq : e.addressWidth = 4 ∨ e.addressWidth = 8 := by
  unfold Encoding.addressWidth
  split
  · exact .inl rfl
  · exact .inr rfl

/-- A sum of registers of the width of addresses, at least one, is formed. -/
theorem Address.formed_sum {base : Option Reg} {index : Option (Reg × Nat)} {displacement : Int}
    (hsome : (sum base index displacement).registers ≠ [])
    (hsize : ∀ r ∈ (sum base index displacement).registers, r.size = e.addressWidth)
    (hscale : ∀ scaled ∈ index, scaled.2 ∈ [1, 2, 4, 8]) (hdisplacement : InSignedRange displacement) :
    (sum base index displacement).Formed := by
  have hwidth : (sum base index displacement).width = e.addressWidth := by
    unfold Address.width
    obtain ⟨r, rs, hrs⟩ := List.exists_cons_of_ne_nil hsome
    rw [hrs]
    exact hsize r (hrs ▸ List.mem_cons_self)
  rw [Address.Formed, hwidth]
  exact ⟨addressWidth_eq e, hsize, hscale, hdisplacement⟩

/-- A base alone, with a displacement. -/
theorem Address.formed_base {r : Reg} (hr : r.size = e.addressWidth) {displacement : Int}
    (hdisplacement : InSignedRange displacement) : (sum (some r) none displacement).Formed := by
  refine formed_sum e (by simp [registers]) (fun s hs => ?_) nofun hdisplacement
  obtain rfl : s = r := by simpa [registers] using hs
  exact hr

theorem yields_readScaled_formed : Yields e.readScaled Address.Formed := by
  unfold Encoding.readScaled
  refine yields_bind (yields_any _) fun sib _ => ?_
  dsimp only
  generalize hindex : (if sib.toNat / 8 % 8 + e.rexBit Rex.index = 4 then none
    else some (Reg.mk e.addressBank (sib.toNat / 8 % 8 + e.rexBit Rex.index), Nat.pow 2 (sib.toNat / 64))) = index
  have hsize : ∀ r ∈ (index.map Prod.fst).toList, r.size = e.addressWidth := by
    rw [← hindex]
    intro r hr
    split at hr
    · cases hr
    · obtain rfl := List.mem_singleton.1 hr
      exact size_addressBank e _
  have hscale : ∀ scaled ∈ index, scaled.2 ∈ [1, 2, 4, 8] := by
    rw [← hindex]
    intro scaled hs
    split at hs
    · cases hs
    · obtain rfl := Option.some.inj hs
      have hpower : ∀ n < 4, Nat.pow 2 n ∈ [1, 2, 4, 8] := by decide
      have hsib : sib.toNat < 256 := sib.toNat_lt
      exact hpower _ (by omega)
  refine yields_ite (fun _ => ?_) fun _ => ?_
  · cases index with
    | none =>
      refine yields_bind (yields_unsigned_lt 4) fun value hvalue => yields_pure ?_
      show (UInt64.ofNat value).toNat < 2 ^ 32
      rw [UInt64.toNat_ofNat']
      omega
    | some scaled =>
      refine yields_bind (yields_signed (Nat.le_refl 4)) fun _ hd => yields_pure ?_
      exact Address.formed_sum e (by simp [Address.registers]) (by simpa [Address.registers] using hsize) hscale hd
  · refine yields_bind (yields_readDisplacement e) fun _ hd => yields_pure ?_
    refine Address.formed_sum e (by simp [Address.registers]) (fun r hr => ?_) hscale hd
    rcases List.mem_append.1 hr with hr | hr
    · obtain rfl := List.mem_singleton.1 hr
      exact size_addressBank e _
    · exact hsize r hr

theorem yields_readAddress_formed : Yields e.readAddress Address.Formed := by
  unfold Encoding.readAddress
  refine yields_ite (fun _ => yields_readScaled_formed e) fun _ => yields_ite (fun _ => ?_) fun _ => ?_
  · refine yields_bind (yields_signed (Nat.le_refl 4)) fun _ hd => yields_pure (Address.formed_base e ?_ hd)
    unfold Encoding.addressWidth
    cases e.lead.addressSize <;> rfl
  · exact yields_bind (yields_readDisplacement e) fun _ hd => yields_pure
      (Address.formed_base e (size_addressBank e _) hd)

/-! ## Memory operands -/

/-- What the address of a memory operand is: formed, or a fixed one that an offset slot gives. -/
def Slot.Addresses (slot : Slot) : Operand → Prop
  | .memory _ _ a => a.Formed ∨ (∃ w, slot = .offset w) ∧ ∃ value, a = .absolute value
  | _ => True

/-- Every slot gives an operand with such an address. -/
theorem yields_addresses {address : Option Address} (ha : ∀ a ∈ address, a.Formed) (slot : Slot) :
    Yields (e.readSlot address slot) slot.Addresses := by
  have hmemory (slot : Slot) (size : Option Nat) : Yields (e.memory? address size) slot.Addresses :=
    (yields_memory? e ha size).mono fun _ ⟨_, _, ho, hformed⟩ => ho ▸ .inl hformed
  cases slot <;> unfold Encoding.readSlot <;> dsimp only
  case place | placeSized | vectorPlace =>
    exact yields_ite (fun _ => yields_pure trivial) fun _ => hmemory _ _
  case memory | memoryOf => exact hmemory _ _
  case offset => exact yields_bind (yields_any _) fun _ _ => yields_pure (.inr ⟨⟨_, rfl⟩, _, rfl⟩)
  case string =>
    exact yields_pure (.inl (Address.formed_base e (size_addressBank e _) ⟨by decide, by decide⟩))
  case segment | control | debug => exact yields_ite (fun _ => yields_pure trivial) fun _ => yields_fail
  case signed | signedOf | unsigned | relative => exact yields_bind (yields_any _) fun _ _ => yields_pure trivial
  case vectorSource | source =>
    split
    · exact yields_pure trivial
    · exact yields_fail
  case maskedVector =>
    split
    · exact yields_ite (fun _ => yields_pure trivial) fun _ => yields_pure trivial
    · exact yields_fail
  all_goals exact yields_pure trivial

end Reading

/-- The instruction has been read by a row with an offset slot, which gives a fixed address of up to eight bytes. -/
def Instruction.HasOffset (i : Instruction) : Prop :=
  ∃ e row address, i.ReadBy e row address ∧ ∃ w, Slot.offset w ∈ row.slots

/-- The address of a memory operand is formed, unless it is the fixed address of an offset slot. -/
theorem formed_of_mem_operands {bytes : List UInt8} {i : Instruction} (h : decode bytes = some i) {size : Option Nat}
    {segment : Option Segment} {a : Address} (ha : .memory size segment a ∈ i.operands) :
    a.Formed ∨ i.HasOffset ∧ ∃ value, a = .absolute value := by
  obtain ⟨e, row, address, hread⟩ := exists_readBy_of_decode h
  obtain ⟨_, _, hplaced⟩ := hread.placed
  obtain ⟨_, _, hslots⟩ := hread.read
  have hformed : ∀ a ∈ address, a.Formed :=
    yields_readPlace e (yields_readAddress_formed e) row.slots _ _ _ hplaced
  have hgiven : List.Forall₂ (fun slot o => slot ∈ row.slots ∧ slot.Addresses o) row.slots i.operands :=
    yields_readSlots e row.slots (fun slot hs => (yields_addresses e hformed slot).mono fun _ ho => ⟨hs, ho⟩) _ _ _
      hslots
  obtain ⟨slot, hs, ho⟩ : ∃ slot, slot ∈ row.slots ∧ slot.Addresses (.memory size segment a) := by
    obtain ⟨n, hn, hget⟩ := List.getElem_of_mem ha
    have hat := List.Forall₂.get hgiven (hgiven.length_eq ▸ hn) hn
    rw [show i.operands.get ⟨n, hn⟩ = _ from hget] at hat
    exact ⟨_, hat⟩
  exact ho.imp id fun ⟨⟨w, hw⟩, hvalue⟩ => ⟨⟨e, row, address, hread, w, hw ▸ hs⟩, hvalue⟩

end TaintReplay.X86
