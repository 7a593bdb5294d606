import TaintReplay.Proofs.X86.Operands

/-!
# The operands of differences

A `sub` and an `xor` of general registers have two operands (`operands_of_difference`): two registers of one bank, or a
register and memory, or an immediate as the second. In one bank, two registers are parts of the same full register only
if they are the same, or the low and the high byte of one word (`full_eq_full_iff`).
-/

namespace TaintReplay.X86

open Reader

/-! ## Banks -/

/-- How many general registers the bank has. -/
def Bank.generals : Bank → Nat
  | .legacyByte => 8
  | .byte | .word | .dword | .qword => 16
  | _ => 0

/-- The names of the low and of the high byte of one word. -/
def byteHalves : List (String × String) := [("al", "ah"), ("cl", "ch"), ("dl", "dh"), ("bl", "bh")]

/-- The names are those of the low and the high byte of one word, in either order. -/
def AreHalves (m n : Reg) : Prop := (m.name, n.name) ∈ byteHalves ∨ (n.name, m.name) ∈ byteHalves

instance (m n : Reg) : Decidable (AreHalves m n) := inferInstanceAs (Decidable (_ ∨ _))

/-- Two registers of one bank share a full register iff they have one name, or are the halves of a word. -/
theorem full_eq_full_iff {bank : Bank} {m n : Nat} (hm : m < bank.generals) (hn : n < bank.generals) :
    (Reg.mk bank m).full = (Reg.mk bank n).full ↔
      (Reg.mk bank m).name = (Reg.mk bank n).name ∨ AreHalves ⟨bank, m⟩ ⟨bank, n⟩ := by
  have hall : ∀ bank ∈ [Bank.legacyByte, .byte, .word, .dword, .qword], ∀ m < bank.generals, ∀ n < bank.generals,
      (Reg.mk bank m).full = (Reg.mk bank n).full ↔
        (Reg.mk bank m).name = (Reg.mk bank n).name ∨ AreHalves ⟨bank, m⟩ ⟨bank, n⟩ := by decide +kernel
  refine hall bank ?_ m hm n hn
  cases bank <;> first
    | exact absurd hm (Nat.not_lt_zero m)
    | simp

/-! ## Rows -/

/-- Is it the operation of a difference or of an exclusive or? -/
def Opcode.isDifference : Opcode → Bool
  | xor | sub => true
  | _ => false

/-- Do the slots give what a difference needs? -/
def Slot.areDifference : List Slot → Bool
  | [.place w, .reg v] | [.reg w, .place v] => w == v
  | [.place _, .signed _] | [.place _, .signedOf _] => true
  | [.accumulator _, .signed _] | [.accumulator _, .signedOf _] => true
  | _ => false

theorem areDifference_of_mem_rows (page : Page) :
    ∀ row ∈ page.rows, row.opcode.isDifference = true → Slot.areDifference row.slots = true := by
  cases page <;> decide +kernel

theorem Opcode.isPlain_of_isDifference {opcode : Opcode} (ho : opcode.isDifference = true) :
    opcode.isPlain = false := by
  cases opcode with
  | plain => cases ho
  | _ => rfl

/-- The row of a difference gives what it needs. -/
theorem Encoding.areDifference_of_row? {e : Encoding} {row : Row} (h : e.row? = some row)
    (ho : row.opcode.isDifference = true) : Slot.areDifference row.slots = true :=
  areDifference_of_mem_rows e.page row (e.mem_rows_of_row? h (Opcode.isPlain_of_isDifference ho)) ho

/-! ## Operands -/

/-- What an operand of a slot is, as far as differences ask. -/
def Encoding.Offers (e : Encoding) : Slot → Operand → Prop
  | .place w, o => o = e.general w e.placeIndex ∨ ∃ size segment a, o = .memory size segment a
  | .reg w, o => o = e.general w e.regIndex
  | .accumulator w, o => o = e.general w 0
  | .signed _, o | .signedOf _, o => ∃ value, o = .immediate value
  | _, _ => True

theorem yields_offers (e : Encoding) (address : Option Address) (slot : Slot) :
    Yields (e.readSlot address slot) (e.Offers slot) := by
  cases slot with
  | place w =>
    refine yields_ite (fun _ => yields_pure (.inl rfl)) fun _ => ?_
    exact (yields_memory? e (fun _ _ => trivial) _).mono fun _ ⟨segment, a, ho, _⟩ => .inr ⟨_, segment, a, ho⟩
  | reg | accumulator => exact yields_pure rfl
  | signed | signedOf => exact yields_bind (yields_any _) fun _ _ => yields_pure ⟨_, rfl⟩
  | _ => exact yields_any _

/-- A register number of three bits, and perhaps one from the REX byte, is that of a general register. -/
theorem index_lt_generals (e : Encoding) (w : Width) {n : Nat} (hn : n < 8) (bit : Rex → Bool) :
    n + e.rexBit bit < (e.bankOf w).generals := by
  have hle : e.rexBit bit ≤ 8 := by
    unfold Encoding.rexBit
    split <;> omega
  unfold Encoding.bankOf
  split
  · cases hrex : e.lead.rex with
    | none =>
      have hzero : e.rexBit bit = 0 := by simp [Encoding.rexBit, hrex]
      rw [hzero]
      exact hn
    | some rex =>
      show n + e.rexBit bit < 16
      omega
  all_goals
    show n + e.rexBit bit < 16
    omega

/-- The operands of a difference. -/
inductive DifferenceOperands : List Operand → Prop
  | registers {bank : Bank} {m n : Nat} (hm : m < bank.generals) (hn : n < bank.generals) :
      DifferenceOperands [.register ⟨bank, m⟩, .register ⟨bank, n⟩]
  | load (r : Reg) (size : Option Nat) (segment : Option Segment) (a : Address) :
      DifferenceOperands [.register r, .memory size segment a]
  | store (size : Option Nat) (segment : Option Segment) (a : Address) (r : Reg) :
      DifferenceOperands [.memory size segment a, .register r]
  | registerImmediate (r : Reg) (value : Int) : DifferenceOperands [.register r, .immediate value]
  | memoryImmediate (size : Option Nat) (segment : Option Segment) (a : Address) (value : Int) :
      DifferenceOperands [.memory size segment a, .immediate value]

theorem exists_pair_of_offers {e : Encoding} {slot slot' : Slot} {operands : List Operand}
    (h : List.Forall₂ e.Offers [slot, slot'] operands) :
    ∃ x y, operands = [x, y] ∧ e.Offers slot x ∧ e.Offers slot' y := by
  obtain ⟨x, _, hx, hrest, rfl⟩ := List.forall₂_cons_left_iff.1 h
  obtain ⟨y, _, hy, hnil, rfl⟩ := List.forall₂_cons_left_iff.1 hrest
  exact ⟨x, y, by rw [List.forall₂_nil_left_iff.1 hnil], hx, hy⟩

theorem DifferenceOperands.exists_eq {operands : List Operand} (h : DifferenceOperands operands) :
    ∃ x y, operands = [x, y] := by
  cases h <;> exact ⟨_, _, rfl⟩

/-- Slots that give what a difference needs give its operands. -/
theorem differenceOperands_of_offers {e : Encoding} {slots : List Slot} {operands : List Operand}
    (hslots : Slot.areDifference slots = true) (h : List.Forall₂ e.Offers slots operands) :
    DifferenceOperands operands := by
  have hreg (w : Width) : e.regIndex < (e.bankOf w).generals :=
    index_lt_generals e w (Nat.mod_lt _ (Nat.succ_pos 7)) Rex.reg
  have hplace (w : Width) : e.placeIndex < (e.bankOf w).generals :=
    index_lt_generals e w (Nat.mod_lt _ (Nat.succ_pos 7)) Rex.base
  unfold Slot.areDifference at hslots
  split at hslots
  · rename_i w v
    obtain rfl : w = v := by simpa using hslots
    obtain ⟨x, y, rfl, hx | ⟨size, segment, a, rfl⟩, rfl⟩ := exists_pair_of_offers h
    · rw [hx]
      exact .registers (hplace w) (hreg w)
    · exact .store size segment a _
  · rename_i w v
    obtain rfl : w = v := by simpa using hslots
    obtain ⟨x, y, rfl, rfl, hy | ⟨size, segment, a, rfl⟩⟩ := exists_pair_of_offers h
    · rw [hy]
      exact .registers (hreg w) (hplace w)
    · exact .load _ size segment a
  · obtain ⟨x, y, rfl, rfl | ⟨size, segment, a, rfl⟩, value, rfl⟩ := exists_pair_of_offers h
    · exact .registerImmediate _ value
    · exact .memoryImmediate size segment a value
  · obtain ⟨x, y, rfl, rfl | ⟨size, segment, a, rfl⟩, value, rfl⟩ := exists_pair_of_offers h
    · exact .registerImmediate _ value
    · exact .memoryImmediate size segment a value
  · obtain ⟨x, y, rfl, rfl, value, rfl⟩ := exists_pair_of_offers h
    exact .registerImmediate _ value
  · obtain ⟨x, y, rfl, rfl, value, rfl⟩ := exists_pair_of_offers h
    exact .registerImmediate _ value
  · cases hslots

/-- A difference has two operands: registers of one bank, a register and memory, or an immediate as the second. -/
theorem operands_of_difference {bytes : List UInt8} {i : Instruction} (h : decode bytes = some i)
    (ho : i.opcode.isDifference = true) : DifferenceOperands i.operands := by
  obtain ⟨e, row, address, hread⟩ := exists_readBy_of_decode h
  obtain ⟨_, _, hreadSlots⟩ := hread.read
  rw [hread.opcode] at ho
  exact differenceOperands_of_offers (Encoding.areDifference_of_row? hread.selected ho)
    (yields_readSlots e row.slots (fun slot _ => yields_offers e address slot) _ _ _ hreadSlots)

end TaintReplay.X86
