import Mathlib.Data.List.Forall2
import TaintReplay.X86.Decode

/-!
# The operands of decoded instructions

`Reader.Yields` says what a reader gives when it succeeds, and sequencing keeps it (`yields_bind`). Every row of the
tables is `Regular`: a conditional branch has one slot, a distance; a `lea` has a register and memory; and no slot names
the program counter as a register. A decoded instruction has been read by the slots of a row (`Instruction.ReadBy`).
Hence what `decode` gives: a conditional branch has one operand, its distance (`operands_of_branch`), a `lea` a register
and memory (`operands_of_lea`), the program counter is never a register operand (`full_ne_counter`), and an address that
uses it uses no other register (`registers_of_counter`). The rows that prefixes add are those of plain operations, so
all others are in the tables of their page (`Encoding.mem_rows_of_row?`).
-/

namespace TaintReplay.X86

/-! ## What readers give -/

namespace Reader

variable {α β : Type}

/-- What the reader gives has the property. -/
def Yields (r : Reader α) (P : α → Prop) : Prop := ∀ bytes x rest, r.run bytes = some (x, rest) → P x

theorem Yields.mono {r : Reader α} {P Q : α → Prop} (h : Yields r P) (hPQ : ∀ x, P x → Q x) : Yields r Q :=
  fun bytes x rest hr => hPQ x (h bytes x rest hr)

theorem yields_any (r : Reader α) : Yields r fun _ => True := fun _ _ _ _ => trivial

/-- What a reader gives it has read from some bytes. -/
theorem yields_self (r : Reader α) : Yields r fun x => ∃ bytes rest, r.run bytes = some (x, rest) :=
  fun bytes _ rest hr => ⟨bytes, rest, hr⟩

theorem yields_pure {x : α} {P : α → Prop} (h : P x) : Yields (pure x : Reader α) P := by
  intro bytes y rest hr
  obtain ⟨rfl, rfl⟩ : x = y ∧ bytes = rest := by simpa [StateT.run_pure] using hr
  exact h

theorem yields_fail {P : α → Prop} : Yields (failure : Reader α) P := by
  intro bytes y rest hr
  simp [StateT.run, failure, StateT.failure] at hr

/-- Sequencing hands on what the first reader gives. -/
theorem yields_bind {r : Reader α} {f : α → Reader β} {P : α → Prop} {Q : β → Prop} (hr : Yields r P)
    (hf : ∀ x, P x → Yields (f x) Q) : Yields (r >>= f) Q := by
  intro bytes y rest h
  simp only [StateT.run_bind, Option.bind_eq_bind, Option.bind_eq_some_iff] at h
  obtain ⟨⟨x, middle⟩, h₁, h₂⟩ := h
  exact hf x (hr _ _ _ h₁) _ _ _ h₂

theorem yields_ite {c : Prop} [Decidable c] {r s : Reader α} {P : α → Prop} (hr : c → Yields r P)
    (hs : ¬c → Yields s P) : Yields (if c then r else s) P := by
  split
  · exact hr ‹_›
  · exact hs ‹_›

end Reader

open Reader

/-! ## Rows -/

/-- Is the bank that of the program counter? -/
def Bank.isCounter : Bank → Bool
  | .counter32 | .counter64 => true
  | _ => false

theorem Reg.full_eq_counter_iff (r : Reg) : r.full = .counter ↔ r.bank.isCounter = true := by
  obtain ⟨bank, index⟩ := r
  cases bank <;> simp [Reg.full, Bank.isCounter]

/-- Does the slot name the program counter as a register? -/
def Slot.namesCounter : Slot → Bool
  | .fixed r => r.bank.isCounter
  | .vector bank | .vectorPlace bank _ | .vectorRegister bank | .vectorSource bank | .maskedVector bank =>
    bank.isCounter
  | _ => false

/-- Do the slots suit the operation? -/
def Opcode.suits : Opcode → List Slot → Bool
  | branch _, [.relative _] => true
  | branch _, _ => false
  | lea, [.reg _, .memoryOf _] => true
  | lea, _ => false
  | _, _ => true

theorem Opcode.slots_of_suits_branch {b : Branch} {slots : List Slot} (h : (branch b).suits slots = true) :
    ∃ n, slots = [.relative n] := by
  simp only [suits] at h
  split at h
  · exact ⟨_, rfl⟩
  all_goals simp_all

theorem Opcode.slots_of_suits_lea {slots : List Slot} (h : lea.suits slots = true) :
    ∃ w v, slots = [.reg w, .memoryOf v] := by
  simp only [suits] at h
  split at h
  · simp_all
  · simp_all
  · exact ⟨_, _, rfl⟩
  all_goals simp_all

/-- The slots suit the operation, and none names the program counter as a register. -/
def Row.Regular (row : Row) : Prop :=
  row.opcode.suits row.slots = true ∧ ∀ slot ∈ row.slots, slot.namesCounter = false

instance (row : Row) : Decidable row.Regular := inferInstanceAs (Decidable (_ ∧ _))

theorem regular_of_mem_rows (page : Page) : ∀ row ∈ page.rows, row.Regular := by
  cases page <;> decide +kernel

theorem regular_of_mem_extended (long : Bool) : ∀ row ∈
    Table.extendedTwoByte long ++ Table.extendedThreeByte long ++ Table.extendedImmediate long, row.Regular := by
  cases long <;> decide +kernel

theorem regular_of_mem_maskedMoves {bank : Bank} (h : bank.isCounter = false) (size : Nat) :
    ∀ row ∈ Table.maskedMoves bank size, row.Regular := by
  simp [Table.maskedMoves, Table.chosen, row, Row.under, Row.Regular, Opcode.suits, Slot.namesCounter, h]

/-- Vectors of twice the length are no program counter either. -/
theorem namesCounter_longSlot {slot : Slot} (h : slot.namesCounter = false) :
    (Table.longSlot slot).namesCounter = false := by
  unfold Table.longSlot
  split
  any_goals rfl
  exact h

theorem namesCounter_longSlots (mnemonic : String) {slots : List Slot} (h : ∀ slot ∈ slots, slot.namesCounter = false) :
    ∀ slot ∈ Table.longSlots mnemonic slots, slot.namesCounter = false := by
  unfold Table.longSlots
  split
  · exact h
  · intro slot hs
    obtain ⟨old, ho, rfl⟩ := List.mem_map.1 hs
    have hold := h old ho
    split
    · split
      · rfl
      · split <;> rfl
    · split <;> rfl
    · exact namesCounter_longSlot hold

theorem namesCounter_sourcedSlots (mnemonic : String) {slots : List Slot}
    (h : ∀ slot ∈ slots, slot.namesCounter = false) :
    ∀ slot ∈ Table.sourcedSlots mnemonic slots, slot.namesCounter = false := by
  unfold Table.sourcedSlots
  split
  · split
    · exact h
    · intro slot hs
      rcases List.mem_cons.1 hs with rfl | hs
      · rfl
      rcases List.mem_cons.1 hs with rfl | hs
      · rfl
      exact h slot (List.mem_cons_of_mem _ hs)
  · intro slot hs
    simp only [List.mem_cons, List.not_mem_nil, or_false] at hs
    rcases hs with rfl | rfl | rfl <;> rfl
  · exact h

/-- A row behind a VEX byte is as regular as the row it comes from. -/
theorem regular_of_extendedRow? {long : Bool} {row row' : Row} (h : row.Regular)
    (he : Table.extendedRow? long row = some row') : row'.Regular := by
  unfold Table.extendedRow? at he
  split at he
  · rename_i mnemonic _
    simp only at he
    split at he
    · simp at he
    · have hs := namesCounter_sourcedSlots mnemonic h.2
      obtain rfl := Option.some.inj he
      have hchecked (r : Row) (hr : r.Regular) : (Table.checked r).Regular := by
        unfold Table.checked
        split
        · exact hr
        · exact hr
      refine hchecked _ ⟨rfl, ?_⟩
      dsimp only
      split
      · exact namesCounter_longSlots mnemonic hs
      · exact hs
  · simp at he

/-- A row behind a VEX or EVEX byte is a masked move, comes from a plain row, or is in the tables of such rows. -/
theorem cases_of_mem_extendedRows {page : Page} {x : Extension} {row : Row} (h : row ∈ page.extendedRows x) :
    (∃ bank size, bank.isCounter = false ∧ row ∈ Table.maskedMoves bank size) ∨
      (∃ long plain old, old ∈ Page.rows plain ∧ Table.extendedRow? long old = some row) ∨
        ∃ long, row ∈ Table.extendedTwoByte long ++ Table.extendedThreeByte long ++ Table.extendedImmediate long := by
  unfold Page.extendedRows at h
  split at h
  · left
    split at h
    · exact ⟨.xmm, 16, rfl, h⟩
    · exact ⟨.ymm, 32, rfl, h⟩
    · exact ⟨.zmm, 64, rfl, h⟩
    · simp at h
  · right
    simp only at h
    split at h
    · simp at h
    · rcases List.mem_append.1 h with h | h
      · obtain ⟨old, ho, he⟩ := List.mem_filterMap.1 h
        exact .inl ⟨_, .afterEscape, old, List.mem_append_right _ ho, he⟩
      · exact .inr ⟨_, List.mem_append_left _ (List.mem_append_left _ h)⟩
    · rcases List.mem_append.1 h with h | h
      · obtain ⟨old, ho, he⟩ := List.mem_filterMap.1 h
        exact .inl ⟨_, .afterEscape38, old, List.mem_append_right _ ho, he⟩
      · exact .inr ⟨_, List.mem_append_left _ (List.mem_append_right _ h)⟩
    · rcases List.mem_append.1 h with h | h
      · obtain ⟨old, ho, he⟩ := List.mem_filterMap.1 h
        exact .inl ⟨_, .afterEscape3a, old, ho, he⟩
      · exact .inr ⟨_, List.mem_append_right _ h⟩

theorem regular_of_mem_extendedRows {page : Page} {x : Extension} {row : Row} (h : row ∈ page.extendedRows x) :
    row.Regular := by
  rcases cases_of_mem_extendedRows h with ⟨bank, size, hbank, hmove⟩ | ⟨long, plain, old, hold, he⟩ | ⟨long, hlong⟩
  · exact regular_of_mem_maskedMoves hbank size row hmove
  · exact regular_of_extendedRow? (regular_of_mem_rows plain old hold) he
  · exact regular_of_mem_extended long row hlong

/-- The row that an encoding selects is regular. -/
theorem Encoding.regular_of_row? {e : Encoding} {row : Row} (h : e.row? = some row) : row.Regular := by
  have hm : row ∈ e.candidates := List.mem_of_find?_eq_some h
  have hm := (List.mem_filter.1 hm).1
  cases hx : e.extension with
  | none =>
    rw [hx] at hm
    exact regular_of_mem_rows e.page row hm
  | some x =>
    rw [hx] at hm
    exact regular_of_mem_extendedRows hm

/-! ## Plain operations -/

/-- Is it an operation of which only the mnemonic is kept? -/
def Opcode.isPlain : Opcode → Bool
  | plain _ => true
  | _ => false

theorem isPlain_of_mem_extended (long : Bool) : ∀ row ∈
    Table.extendedTwoByte long ++ Table.extendedThreeByte long ++ Table.extendedImmediate long,
      row.opcode.isPlain = true := by
  cases long <;> decide +kernel

theorem isPlain_of_mem_maskedMoves (bank : Bank) (size : Nat) :
    ∀ row ∈ Table.maskedMoves bank size, row.opcode.isPlain = true := by
  simp [Table.maskedMoves, Table.chosen, row, Row.under, Opcode.isPlain]

theorem opcode_checked (row : Row) : (Table.checked row).opcode = row.opcode := by
  unfold Table.checked
  split <;> rfl

theorem isPlain_of_extendedRow? {long : Bool} {row row' : Row} (he : Table.extendedRow? long row = some row') :
    row'.opcode.isPlain = true := by
  unfold Table.extendedRow? at he
  split at he
  · simp only at he
    split at he
    · simp at he
    · obtain rfl := Option.some.inj he
      rw [opcode_checked]
      rfl
  · simp at he

/-- Behind a VEX or EVEX byte all operations are plain. -/
theorem isPlain_of_mem_extendedRows {page : Page} {x : Extension} {row : Row} (h : row ∈ page.extendedRows x) :
    row.opcode.isPlain = true := by
  rcases cases_of_mem_extendedRows h with ⟨bank, size, -, hmove⟩ | ⟨long, _, old, -, he⟩ | ⟨long, hlong⟩
  · exact isPlain_of_mem_maskedMoves bank size row hmove
  · exact isPlain_of_extendedRow? he
  · exact isPlain_of_mem_extended long row hlong

/-- The row that an encoding selects is one of its page, unless the operation is plain. -/
theorem Encoding.mem_rows_of_row? {e : Encoding} {row : Row} (h : e.row? = some row)
    (ho : row.opcode.isPlain = false) : row ∈ e.page.rows := by
  have hm : row ∈ e.candidates := List.mem_of_find?_eq_some h
  have hm := (List.mem_filter.1 hm).1
  cases hx : e.extension with
  | none =>
    rw [hx] at hm
    exact hm
  | some x =>
    rw [hx] at hm
    rw [isPlain_of_mem_extendedRows hm] at ho
    cases ho

/-! ## Operands -/

/-- An address that uses the program counter uses no other register. -/
def Address.Regular (a : Address) : Prop := ∀ r ∈ a.registers, r.full = .counter → a.registers = [r]

/-- The program counter is no register operand, and addresses are regular. -/
def Operand.Regular : Operand → Prop
  | .register r => r.full ≠ .counter
  | .memory _ _ a => a.Regular
  | _ => True

/-- The operands that a slot may give, as far as branches and `lea` ask. -/
def Slot.Gives : Slot → Operand → Prop
  | .relative _, o => ∃ distance, o = .relative distance
  | .reg _, o => ∃ r, o = .register r
  | .memoryOf _, o => ∃ size segment a, o = .memory size segment a
  | _, _ => True

theorem Address.regular_absolute (value : UInt64) : (Address.absolute value).Regular := by
  intro r hr
  simp [Address.registers] at hr

theorem Address.regular_base (r : Reg) (displacement : Int) : (Address.sum (some r) none displacement).Regular := by
  intro s hs _
  obtain rfl : s = r := by simpa [Address.registers] using hs
  rfl

/-- A sum of registers other than the program counter. -/
theorem Address.regular_of_ne {a : Address} (h : ∀ r ∈ a.registers, r.full ≠ .counter) : a.Regular :=
  fun r hr hc => absurd hc (h r hr)

section Slots

variable (e : Encoding)

theorem isCounter_addressBank : e.addressBank.isCounter = false := by
  unfold Encoding.addressBank
  split <;> rfl

theorem full_addressBank (index : Nat) : (Reg.mk e.addressBank index).full ≠ .counter := by
  rw [Ne, Reg.full_eq_counter_iff]
  simp [isCounter_addressBank]

theorem full_bankOf (w : Width) (index : Nat) : (Reg.mk (e.bankOf w) index).full ≠ .counter := by
  have h : (e.bankOf w).isCounter = false := by
    unfold Encoding.bankOf
    split
    · split <;> rfl
    · rfl
    · rfl
    · rfl
  rw [Ne, Reg.full_eq_counter_iff]
  simp [h]

theorem yields_readScaled : Yields e.readScaled Address.Regular := by
  unfold Encoding.readScaled
  refine yields_bind (yields_any _) fun sib _ => ?_
  dsimp only
  have hindex (scale : Nat) : ∀ r ∈ (Option.map Prod.fst (if sib.toNat / 8 % 8 + e.rexBit Rex.index = 4 then none
      else some (Reg.mk e.addressBank (sib.toNat / 8 % 8 + e.rexBit Rex.index), scale))).toList,
      r.full ≠ .counter := by
    intro r hr
    split at hr
    · simp at hr
    · obtain rfl : r = _ := by simpa using hr
      exact full_addressBank e _
  refine yields_ite (fun _ => ?_) fun _ => ?_
  · split
    · exact yields_bind (yields_any _) fun _ _ => yields_pure (Address.regular_absolute _)
    · refine yields_bind (yields_any _) fun _ _ => yields_pure (Address.regular_of_ne ?_)
      simpa only [Address.registers, Option.toList_none, List.nil_append] using hindex _
  · refine yields_bind (yields_any _) fun _ _ => yields_pure (Address.regular_of_ne ?_)
    intro r hr
    rcases List.mem_append.1 hr with hr | hr
    · obtain rfl : r = _ := by simpa using hr
      exact full_addressBank e _
    · exact hindex _ r hr

theorem yields_readAddress : Yields e.readAddress Address.Regular := by
  unfold Encoding.readAddress
  refine yields_ite (fun _ => yields_readScaled e) fun _ => yields_ite (fun _ => ?_) fun _ => ?_
  · exact yields_bind (yields_any _) fun _ _ => yields_pure (Address.regular_base _ _)
  · exact yields_bind (yields_any _) fun _ _ => yields_pure (Address.regular_base _ _)

/-- Memory is at the address that was read before. -/
theorem yields_memory? {P : Address → Prop} {address : Option Address} (h : ∀ a ∈ address, P a) (size : Option Nat) :
    Yields (e.memory? address size) fun o => ∃ segment a, o = .memory size segment a ∧ P a := by
  unfold Encoding.memory?
  split
  · exact yields_pure ⟨_, _, rfl, h _ rfl⟩
  · exact yields_fail

theorem regular_general (w : Width) (index : Nat) : (e.general w index).Regular := full_bankOf e w index

theorem regular_register {bank : Bank} (h : bank.isCounter = false) (index : Nat) :
    (Operand.register ⟨bank, index⟩).Regular := by
  show Reg.full _ ≠ _
  rw [Ne, Reg.full_eq_counter_iff]
  simp [h]

theorem yields_existing {bank : Bank} (h : bank.isCounter = false) (valid : List Nat) (index : Nat) :
    Yields (Encoding.existing bank valid index) Operand.Regular :=
  yields_ite (fun _ => yields_pure (regular_register h index)) fun _ => yields_fail

/-- Every slot gives a regular operand. -/
theorem yields_readSlot {address : Option Address} (ha : ∀ a ∈ address, a.Regular) {slot : Slot}
    (hs : slot.namesCounter = false) : Yields (e.readSlot address slot) fun o => slot.Gives o ∧ o.Regular := by
  have hmemory (size : Option Nat) : Yields (e.memory? address size) fun o => True ∧ o.Regular :=
    (yields_memory? e ha size).mono fun _ ⟨_, _, ho, hr⟩ => ⟨trivial, ho ▸ hr⟩
  have hgeneral (w : Width) (index : Nat) :
      Yields (pure (e.general w index) : Reader Operand) fun o => True ∧ o.Regular :=
    yields_pure ⟨trivial, regular_general e w index⟩
  have hvector {bank : Bank} (hb : bank.isCounter = false) (index : Nat) :
      Yields (pure (.register ⟨bank, index⟩) : Reader Operand) fun o => True ∧ o.Regular :=
    yields_pure ⟨trivial, regular_register hb index⟩
  have hexisting {bank : Bank} (hb : bank.isCounter = false) (valid : List Nat) (index : Nat) :
      Yields (Encoding.existing bank valid index) fun o => True ∧ o.Regular :=
    (yields_existing hb valid index).mono fun _ h => ⟨trivial, h⟩
  cases slot <;> unfold Encoding.readSlot <;> dsimp only
  case place => exact yields_ite (fun _ => hgeneral _ _) fun _ => hmemory _
  case placeSized => exact yields_ite (fun _ => hgeneral _ _) fun _ => hmemory _
  case lowerRegister => exact hgeneral _ _
  case memory => exact hmemory _
  case memoryOf =>
    exact (yields_memory? e ha _).mono fun _ ⟨segment, a, ho, hr⟩ => ⟨⟨_, segment, a, ho⟩, ho ▸ hr⟩
  case reg => exact yields_pure ⟨⟨_, rfl⟩, regular_general e _ _⟩
  case opcodeReg => exact hgeneral _ _
  case accumulator => exact hgeneral _ _
  case fixed r => exact yields_pure ⟨trivial, regular_register hs r.index⟩
  case segment => exact hexisting rfl _ _
  case control => exact hexisting rfl _ _
  case debug => exact hexisting rfl _ _
  case signed => exact yields_bind (yields_any _) fun _ _ => yields_pure ⟨trivial, trivial⟩
  case signedOf => exact yields_bind (yields_any _) fun _ _ => yields_pure ⟨trivial, trivial⟩
  case unsigned => exact yields_bind (yields_any _) fun _ _ => yields_pure ⟨trivial, trivial⟩
  case literal => exact yields_pure ⟨trivial, trivial⟩
  case relative => exact yields_bind (yields_any _) fun _ _ => yields_pure ⟨⟨_, rfl⟩, trivial⟩
  case offset => exact yields_bind (yields_any _) fun _ _ => yields_pure ⟨trivial, Address.regular_absolute _⟩
  case string => exact yields_pure ⟨trivial, Address.regular_base _ _⟩
  case vector => exact hvector hs _
  case vectorPlace => exact yields_ite (fun _ => hvector hs _) fun _ => hmemory _
  case vectorRegister => exact hvector hs _
  case vectorSource =>
    split
    · exact hvector hs _
    · exact yields_fail
  case source =>
    split
    · exact hgeneral _ _
    · exact yields_fail
  case maskedVector =>
    split
    · exact yields_ite (fun _ => hvector hs _) fun _ => yields_pure ⟨trivial, trivial⟩
    · exact yields_fail
  case stackEntry => exact hvector rfl _

/-- Reading slots gives an operand for each. -/
theorem yields_readSlots {address : Option Address} {R : Slot → Operand → Prop} : ∀ slots : List Slot,
    (∀ slot ∈ slots, Yields (e.readSlot address slot) (R slot)) →
      Yields (readSlots e address slots) fun os => List.Forall₂ R slots os
  | [], _ => yields_pure .nil
  | slot :: slots, hs => by
    refine yields_bind (hs slot List.mem_cons_self) fun o ho => ?_
    refine yields_bind (yields_readSlots slots fun s h => hs s (List.mem_cons_of_mem _ h)) fun os hos => ?_
    exact yields_pure (.cons ho hos)

/-- The address of a place, if there is one, has the property of all addresses that are read. -/
theorem yields_readPlace {P : Address → Prop} (h : Yields e.readAddress P) (slots : List Slot) :
    Yields (readPlace e slots) fun address => ∀ a ∈ address, P a := by
  refine yields_ite (fun _ => yields_bind h fun a ha => yields_pure ?_) fun _ => yields_pure nofun
  intro b hb
  obtain rfl := Option.some.inj hb
  exact ha

end Slots

/-- An instruction has been read by the slots of the row that an encoding selects. -/
structure Instruction.ReadBy (i : Instruction) (e : Encoding) (row : Row) (address : Option Address) : Prop where
  selected : e.row? = some row
  opcode : i.opcode = row.opcode
  placed : ∃ bytes rest, (readPlace e row.slots).run bytes = some (address, rest)
  read : ∃ bytes rest, (readSlots e address row.slots).run bytes = some (i.operands, rest)

theorem yields_readOperands {e : Encoding} {row : Row} (hrow : e.row? = some row) :
    Yields (readOperands e row) fun i => ∃ address, i.ReadBy e row address := by
  refine yields_bind (yields_self _) fun address ha => yields_bind (yields_self _) fun operands ho => ?_
  have hread : ∃ address, Instruction.ReadBy ⟨row.opcode, operands, e.marks row operands, 0⟩ e row address :=
    ⟨address, hrow, rfl, ha, ho⟩
  exact yields_ite (fun _ => yields_bind (yields_any _) fun _ _ => yields_pure hread) fun _ => yields_pure hread

theorem yields_readInstruction : Yields readInstruction fun i => ∃ e row address, i.ReadBy e row address := by
  refine yields_bind (yields_any _) fun e _ => yields_bind (yields_any _) fun e _ => ?_
  split
  · rename_i row hr
    exact (yields_readOperands hr).mono fun i hi => ⟨e, row, hi⟩
  · exact yields_fail

theorem exists_readBy_of_decode {bytes : List UInt8} {i : Instruction} (h : decode bytes = some i) :
    ∃ e row address, i.ReadBy e row address := by
  unfold decode at h
  split at h
  · rename_i j rest hr
    obtain ⟨e, row, address, hread⟩ := yields_readInstruction _ _ _ hr
    split at h
    · obtain rfl := Option.some.inj h
      exact ⟨e, row, address, hread.selected, hread.opcode, hread.placed, hread.read⟩
    · simp at h
  · simp at h

/-- An instruction fits a row: it has the row's operation, and a regular operand for each slot. -/
structure Instruction.Fits (i : Instruction) (row : Row) : Prop where
  opcode : i.opcode = row.opcode
  gives : List.Forall₂ Slot.Gives row.slots i.operands
  regular : ∀ o ∈ i.operands, o.Regular

theorem exists_fits_of_decode {bytes : List UInt8} {i : Instruction} (h : decode bytes = some i) :
    ∃ row : Row, row.Regular ∧ i.Fits row := by
  obtain ⟨e, row, address, hread⟩ := exists_readBy_of_decode h
  have hrow : row.Regular := Encoding.regular_of_row? hread.selected
  obtain ⟨_, _, hplaced⟩ := hread.placed
  obtain ⟨_, _, hreadSlots⟩ := hread.read
  have ha : ∀ a ∈ address, a.Regular := yields_readPlace e (yields_readAddress e) row.slots _ _ _ hplaced
  have hslots := yields_readSlots e row.slots (fun slot hs => yields_readSlot e ha (hrow.2 slot hs)) _ _ _ hreadSlots
  have hregular : List.Forall₂ (fun o slot => Operand.Regular o ∧ Slot.Gives slot o) i.operands row.slots :=
    hslots.flip.imp fun _ _ ho => ⟨ho.2, ho.1⟩
  exact ⟨row, hrow, hread.opcode, hslots.imp fun _ _ ho => ho.1, ((List.forall₂_and_left _ _).1 hregular).1⟩

theorem decode_of_decodeWhole {bytes : List UInt8} {i : Instruction} (h : decodeWhole bytes = some i) :
    decode bytes = some i ∧ i.length = bytes.length := by
  obtain ⟨hd, hl⟩ := Option.filter_eq_some_iff.1 h
  exact ⟨hd, by simpa using hl⟩

section Decoded

variable {bytes : List UInt8} {i : Instruction} (h : decode bytes = some i)
include h

/-- A conditional branch has one operand, its distance. -/
theorem operands_of_branch {b : Branch} (hb : i.opcode = .branch b) :
    ∃ distance, i.operands = [.relative distance] := by
  obtain ⟨row, ⟨hsuits, _⟩, hfits⟩ := exists_fits_of_decode h
  rw [← hfits.opcode, hb] at hsuits
  obtain ⟨n, hslots⟩ := Opcode.slots_of_suits_branch hsuits
  have hgives := hfits.gives
  rw [hslots] at hgives
  obtain ⟨o, os, ⟨distance, rfl⟩, hnil, hi⟩ := List.forall₂_cons_left_iff.1 hgives
  exact ⟨distance, by rw [hi, List.forall₂_nil_left_iff.1 hnil]⟩

/-- A `lea` has a register and memory as operands. -/
theorem operands_of_lea (hl : i.opcode = .lea) :
    ∃ r size segment a, i.operands = [.register r, .memory size segment a] := by
  obtain ⟨row, ⟨hsuits, _⟩, hfits⟩ := exists_fits_of_decode h
  rw [← hfits.opcode, hl] at hsuits
  obtain ⟨w, v, hslots⟩ := Opcode.slots_of_suits_lea hsuits
  have hgives := hfits.gives
  rw [hslots] at hgives
  obtain ⟨o, os, ⟨r, rfl⟩, hrest, hi⟩ := List.forall₂_cons_left_iff.1 hgives
  obtain ⟨o', os', ⟨size, segment, a, rfl⟩, hnil, rfl⟩ := List.forall₂_cons_left_iff.1 hrest
  exact ⟨r, size, segment, a, by rw [hi, List.forall₂_nil_left_iff.1 hnil]⟩

theorem regular_of_mem_operands {o : Operand} (ho : o ∈ i.operands) : o.Regular := by
  obtain ⟨row, _, hfits⟩ := exists_fits_of_decode h
  exact hfits.regular o ho

/-- The program counter is never a register operand. -/
theorem full_ne_counter {r : Reg} (hr : .register r ∈ i.operands) : r.full ≠ .counter :=
  regular_of_mem_operands h hr

/-- An address that uses the program counter uses no other register. -/
theorem registers_of_counter {size : Option Nat} {segment : Option Segment} {a : Address} {r : Reg}
    (ha : .memory size segment a ∈ i.operands) (hr : r ∈ a.registers) (hc : r.full = .counter) : a.registers = [r] :=
  (regular_of_mem_operands h ha : a.Regular) r hr hc

end Decoded

end TaintReplay.X86
