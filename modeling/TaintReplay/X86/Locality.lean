import TaintReplay.X86.Decode

/-!
# An instruction depends on its own bytes alone

Every reader of the decoder is local, so what follows an instruction does not change it: `decode_take` decodes the same
instruction from the bytes it takes, `decode_append` from those bytes with anything behind them. An instruction takes at
least one byte and no more than there are (`length_pos_of_decode`, `length_le_of_decode`).
-/

namespace TaintReplay.X86

open Reader

section Readers

variable {α β : Type}

theorem local_ite {c : Prop} [Decidable c] {r s : Reader α} (hr : Local r) (hs : Local s) :
    Local (if c then r else s) := by
  split <;> assumption

theorem local_readDisplacement (e : Encoding) : Local e.readDisplacement := by
  unfold Encoding.readDisplacement
  split
  · exact local_signed 1
  · exact local_signed 4
  · exact local_pure 0

theorem local_readScaled (e : Encoding) : Local e.readScaled := by
  unfold Encoding.readScaled
  refine local_bind local_byte fun sib => ?_
  dsimp only
  split
  · split
    · exact local_bind (local_unsigned 4) fun _ => local_pure _
    · exact local_bind (local_signed 4) fun _ => local_pure _
  · exact local_bind (local_readDisplacement e) fun _ => local_pure _

theorem local_readAddress (e : Encoding) : Local e.readAddress := by
  unfold Encoding.readAddress
  split
  · exact local_readScaled e
  · split
    · exact local_bind (local_signed 4) fun _ => local_pure _
    · exact local_bind (local_readDisplacement e) fun _ => local_pure _

theorem local_memory? (e : Encoding) (address : Option Address) (size : Option Nat) :
    Local (e.memory? address size) := by
  unfold Encoding.memory?
  split
  · exact local_pure _
  · exact local_fail

theorem local_existing (bank : Bank) (valid : List Nat) (index : Nat) :
    Local (Encoding.existing bank valid index) :=
  local_ite (local_pure _) local_fail

theorem local_readSlot (e : Encoding) (address : Option Address) (slot : Slot) : Local (e.readSlot address slot) := by
  cases slot <;> unfold Encoding.readSlot <;> dsimp only
  case place => exact local_ite (local_pure _) (local_memory? _ _ _)
  case placeSized => exact local_ite (local_pure _) (local_memory? _ _ _)
  case vectorPlace => exact local_ite (local_pure _) (local_memory? _ _ _)
  case memory => exact local_memory? _ _ _
  case memoryOf => exact local_memory? _ _ _
  case segment => exact local_existing _ _ _
  case control => exact local_existing _ _ _
  case debug => exact local_existing _ _ _
  case signed n => exact local_bind (local_signed n) fun _ => local_pure _
  case signedOf => exact local_bind (local_signed _) fun _ => local_pure _
  case unsigned n => exact local_bind (local_unsigned n) fun _ => local_pure _
  case relative n => exact local_bind (local_signed n) fun _ => local_pure _
  case offset => exact local_bind (local_unsigned _) fun _ => local_pure _
  case vectorSource =>
    split
    · exact local_pure _
    · exact local_fail
  case source =>
    split
    · exact local_pure _
    · exact local_fail
  case maskedVector =>
    split
    · exact local_ite (local_pure _) (local_pure _)
    · exact local_fail
  all_goals exact local_pure _

theorem local_readSlots (e : Encoding) (address : Option Address) (slots : List Slot) :
    Local (readSlots e address slots) := by
  induction slots with
  | nil => exact local_pure _
  | cons slot slots ih =>
    exact local_bind (local_readSlot e address slot) fun _ => local_bind ih fun _ => local_pure _

theorem local_pageOf (n : Nat) : Local (pageOf n) := by
  unfold pageOf
  split
  · exact local_pure _
  · exact local_pure _
  · exact local_pure _
  · exact local_fail

theorem local_readEscaped (lead : Lead) : Local (readEscaped lead) := by
  refine local_bind local_byte fun b => ?_
  split
  · exact local_bind local_byte fun _ => local_pure _
  · exact local_bind local_byte fun _ => local_pure _
  · exact local_pure _

theorem local_readShortVex (lead : Lead) : Local (readShortVex lead) :=
  local_bind local_byte fun _ => local_bind local_byte fun _ => local_pure _

theorem local_readLongVex (lead : Lead) : Local (readLongVex lead) :=
  local_bind local_byte fun _ => local_bind local_byte fun _ => local_bind (local_pageOf _) fun _ =>
    local_bind local_byte fun _ => local_pure _

theorem local_readEvex (lead : Lead) : Local (readEvex lead) := by
  refine local_bind local_byte fun first => local_bind local_byte fun second => local_bind local_byte fun third => ?_
  dsimp only
  split
  · exact local_bind local_fail fun _ => local_bind (local_pageOf _) fun _ => local_bind local_byte fun _ =>
      local_pure _
  · exact local_bind (local_pageOf _) fun _ => local_bind local_byte fun _ => local_pure _

theorem local_readPage (lead : Lead) (b : UInt8) : Local (readPage lead b) := by
  unfold readPage
  dsimp only
  split
  · exact local_readEscaped lead
  · exact local_ite (local_readLongVex lead) local_fail
  · exact local_ite (local_readShortVex lead) local_fail
  · exact local_ite (local_readEvex lead) local_fail
  · exact local_pure _

theorem local_readOpcodeFrom (fuel legacy : Nat) (lead : Lead) : Local (readOpcodeFrom fuel legacy lead) := by
  induction fuel generalizing legacy lead with
  | zero => exact local_fail
  | succ fuel ih =>
    refine local_bind local_byte fun b => ?_
    split
    · exact local_ite local_fail (ih _ _)
    · exact local_ite (ih _ _) (local_readPage lead b)

theorem local_readModRM (e : Encoding) : Local (readModRM e) :=
  local_ite (local_bind local_byte fun _ => local_pure _) (local_pure _)

theorem local_readOperands (e : Encoding) (row : Row) : Local (readOperands e row) := by
  refine local_bind ?_ fun address => local_bind (local_readSlots e address row.slots) fun operands => ?_
  · exact local_ite (local_bind (local_readAddress e) fun _ => local_pure _) (local_pure _)
  · dsimp only
    split
    · exact local_bind local_fail fun _ => local_pure _
    · exact local_pure _

theorem local_readInstruction : Local readInstruction := by
  refine local_bind (local_readOpcodeFrom _ _ _) fun e => local_bind (local_readModRM e) fun e => ?_
  split
  · exact local_readOperands e _
  · exact local_fail

end Readers

/-- An instruction takes no more bytes than there are. -/
theorem length_le_of_decode {bytes : List UInt8} {i : Instruction} (h : decode bytes = some i) :
    i.length ≤ bytes.length := by
  unfold decode at h
  split at h
  · split at h
    · simp only [Option.some.injEq] at h
      subst h
      simp
    · simp at h
  · simp at h

theorem length_le_maxLength {bytes : List UInt8} {i : Instruction} (h : decode bytes = some i) :
    i.length ≤ maxLength := by
  unfold decode at h
  split at h
  · split at h
    · simp only [Option.some.injEq] at h
      subst h
      assumption
    · simp at h
  · simp at h

/-- The bytes an instruction takes give the same instruction, whatever follows them. -/
theorem decode_append {bytes : List UInt8} {i : Instruction} (h : decode bytes = some i) (more : List UInt8) :
    decode (bytes.take i.length ++ more) = some i := by
  unfold decode at h
  split at h
  · rename_i j rest hr
    obtain ⟨taken, rfl, hm⟩ := local_readInstruction _ _ _ hr
    split at h
    · rename_i hle
      simp only [Option.some.injEq] at h
      subst h
      have ht : (taken ++ rest).take ((taken ++ rest).length - rest.length) = taken := by simp
      rw [ht]
      unfold decode
      rw [hm more]
      have hl : (taken ++ more).length - more.length = (taken ++ rest).length - rest.length := by simp
      simp only [hl, hle, if_true]
    · simp at h
  · simp at h

theorem decode_take {bytes : List UInt8} {i : Instruction} (h : decode bytes = some i) :
    decode (bytes.take i.length) = some i := by
  simpa using decode_append h []

/-- An instruction takes at least one byte. -/
theorem length_pos_of_decode {bytes : List UInt8} {i : Instruction} (h : decode bytes = some i) : 0 < i.length := by
  rcases Nat.eq_zero_or_pos i.length with hz | hp
  · have h0 := decode_take h
    rw [hz, List.take_zero] at h0
    have hnil : decode [] = none := rfl
    simp [hnil] at h0
  · exact hp

/-- The bytes an instruction takes are decoded whole. -/
theorem decodeWhole_take {bytes : List UInt8} {i : Instruction} (h : decode bytes = some i) :
    decodeWhole (bytes.take i.length) = some i := by
  simp [decodeWhole, decode_take h, length_le_of_decode h]

end TaintReplay.X86
