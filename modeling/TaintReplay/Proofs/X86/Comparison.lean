import Mathlib.Data.Nat.Bitwise
import TaintReplay.Analysis.Decision

/-!
# Branch decisions after a comparison

A comparison of two words leaves in the flags register whether the first lies below the second (carry), whether they
agree (zero), the top bit of their difference (sign), and whether the difference of the signed words does not fit
(overflow). `Compared flags a b` states these four bits and leaves the other sixty open; `exists_compared` says that
every pair of words has such flags.

A conditional jump then decides the order of the two words that its mnemonic names, on the words themselves for the
conditions on the carry and on their signed values for the conditions on the sign (`isTaken_compared`). The signed
order needs the one argument by cases: the sign of the difference is wrong exactly when the overflow bit says so
(`sign_bne_overflow`). The branches on the count decide it after the count has been lowered, modulo `2 ^ 64`.
-/

namespace TaintReplay.X86

/-! ## Reading one bit -/

/-- The test of a flag reads the bit of the flags register at its position. -/
theorem isSet_eq_testBit (flag : Flag) (flags : UInt64) :
    flag.isSet flags = flags.toNat.testBit flag.bit.toNat := by
  have hmask : (1 <<< flag.bit : UInt64).toNat = 2 ^ flag.bit.toNat := by cases flag <;> rfl
  unfold Flag.isSet
  rw [Bool.eq_iff_iff, bne_iff_ne, ne_eq, ← UInt64.toNat_inj, UInt64.toNat_and, hmask, Nat.and_two_pow]
  cases flags.toNat.testBit flag.bit.toNat <;> simp

/-- The top bit of a word says that the word lies in the upper half. -/
theorem testBit_top (a : UInt64) : a.toNat.testBit 63 = decide (2 ^ 63 ≤ a.toNat) := by
  have := a.toNat_lt
  rw [Nat.testBit_eq_decide_div_mod_eq]
  congr 1
  simp only [eq_iff_iff]
  omega

/-- The signed value of a word, by the half that the word lies in. -/
theorem toInt_toInt64 (a : UInt64) :
    a.toInt64.toInt = if a.toNat < 2 ^ 63 then (a.toNat : Int) else a.toNat - 2 ^ 64 := by
  have : a.toInt64.toInt = a.toBitVec.toInt := rfl
  rw [this, BitVec.toInt_eq_toNat_cond, UInt64.toNat_toBitVec]
  split <;> split <;> omega

/-! ## The flags of a comparison -/

/-- The flags hold the carry, zero, sign and overflow bits of a comparison of `a` with `b`; the other bits are open. -/
structure Compared (flags a b : UInt64) : Prop where
  /-- The first word lies below the second. -/
  carry : flags.toNat.testBit 0 = decide (a < b)
  /-- The words agree. -/
  zero : flags.toNat.testBit 6 = decide (a = b)
  /-- The sign is the top bit of the difference. -/
  sign : flags.toNat.testBit 7 = (a - b).toNat.testBit 63
  /-- The signed value of the difference is not the difference of the signed values. -/
  overflow : flags.toNat.testBit 11 = decide ((a - b).toInt64.toInt ≠ a.toInt64.toInt - b.toInt64.toInt)

/-- The word whose four comparison bits are the given ones and whose other bits are clear. -/
def flagsWord (carry zero sign overflow : Bool) : UInt64 :=
  (if carry then 0x1 else 0) + (if zero then 0x40 else 0) + (if sign then 0x80 else 0) +
    (if overflow then 0x800 else 0)

theorem testBit_flagsWord : ∀ carry zero sign overflow : Bool,
    (flagsWord carry zero sign overflow).toNat.testBit 0 = carry ∧
    (flagsWord carry zero sign overflow).toNat.testBit 6 = zero ∧
    (flagsWord carry zero sign overflow).toNat.testBit 7 = sign ∧
    (flagsWord carry zero sign overflow).toNat.testBit 11 = overflow := by
  decide

/-- Every two words have flags of their comparison. -/
theorem exists_compared (a b : UInt64) : ∃ flags, Compared flags a b := by
  obtain ⟨hc, hz, hs, ho⟩ := testBit_flagsWord (decide (a < b)) (decide (a = b)) ((a - b).toNat.testBit 63)
    (decide ((a - b).toInt64.toInt ≠ a.toInt64.toInt - b.toInt64.toInt))
  exact ⟨_, hc, hz, hs, ho⟩

/-- The sign of the difference, corrected by the overflow, decides the signed order: without overflow the difference
has the sign that the signed values give it, and with overflow it has the other one. -/
theorem sign_bne_overflow (a b : UInt64) :
    ((a - b).toNat.testBit 63 != decide ((a - b).toInt64.toInt ≠ a.toInt64.toInt - b.toInt64.toInt)) =
      decide (a.toInt64 < b.toInt64) := by
  have ha := a.toNat_lt
  have hb := b.toNat_lt
  have hd : (a - b).toNat = (2 ^ 64 - b.toNat + a.toNat) % 2 ^ 64 := UInt64.toNat_sub a b
  rw [Bool.eq_iff_iff, decide_eq_true_iff, Int64.lt_iff_toInt_lt, testBit_top, bne_iff_ne, ne_eq, Bool.eq_iff_iff]
  simp only [decide_eq_true_iff, toInt_toInt64]
  generalize (a - b).toNat = d at hd ⊢
  -- The two words lie in the lower or the upper half each, and the difference wraps around or does not.
  by_cases ha' : a.toNat < 2 ^ 63 <;> by_cases hb' : b.toNat < 2 ^ 63 <;> by_cases hd' : d < 2 ^ 63 <;>
    simp only [ha', hb', hd', if_true, if_false] <;> omega

namespace Compared

variable {flags a b : UInt64}

theorem isSet_carry (h : Compared flags a b) : Flag.carry.isSet flags = decide (a < b) :=
  (isSet_eq_testBit .carry flags).trans h.carry

theorem isSet_zero (h : Compared flags a b) : Flag.zero.isSet flags = decide (a = b) :=
  (isSet_eq_testBit .zero flags).trans h.zero

theorem isSet_sign_bne_overflow (h : Compared flags a b) :
    (Flag.sign.isSet flags != Flag.overflow.isSet flags) = decide (a.toInt64 < b.toInt64) := by
  rw [isSet_eq_testBit, isSet_eq_testBit]
  exact (congr_arg₂ bne h.sign h.overflow).trans (sign_bne_overflow a b)

/-! ## Conditions after a comparison -/

theorem holds_zero (h : Compared flags a b) : Condition.zero.holds flags ↔ a = b := by
  simp [Condition.holds, h.isSet_zero]

theorem holds_below (h : Compared flags a b) : Condition.below.holds flags ↔ a < b := by
  simp [Condition.holds, h.isSet_carry]

theorem holds_notAbove (h : Compared flags a b) : Condition.notAbove.holds flags ↔ a ≤ b := by
  rw [UInt64.le_iff_lt_or_eq]
  simp [Condition.holds, h.isSet_carry, h.isSet_zero]

theorem holds_less (h : Compared flags a b) : Condition.less.holds flags ↔ a.toInt64 < b.toInt64 := by
  rw [Condition.holds, h.isSet_sign_bne_overflow, decide_eq_true_iff]

theorem holds_notGreater (h : Compared flags a b) :
    Condition.notGreater.holds flags ↔ a.toInt64 ≤ b.toInt64 := by
  have heq : a.toInt64 = b.toInt64 ↔ a = b :=
    ⟨fun h => by simpa using congrArg Int64.toUInt64 h, congrArg UInt64.toInt64⟩
  rw [Condition.holds, h.isSet_sign_bne_overflow, h.isSet_zero, Int64.le_iff_lt_or_eq, heq]
  simp [or_comm]

end Compared

/-- The condition that holds exactly when `c` does not. -/
def Condition.opposite : Condition → Condition
  | overflow => notOverflow
  | notOverflow => overflow
  | below => notBelow
  | notBelow => below
  | zero => notZero
  | notZero => zero
  | notAbove => above
  | above => notAbove
  | sign => notSign
  | notSign => sign
  | parity => notParity
  | notParity => parity
  | less => notLess
  | notLess => less
  | notGreater => greater
  | greater => notGreater

/-- For any flags, one of a condition and its opposite holds. -/
theorem Condition.holds_opposite (c : Condition) (flags : UInt64) : c.opposite.holds flags = !c.holds flags := by
  cases c <;> simp [Condition.opposite, Condition.holds, bne]

/-! ## Branches -/

/-- Lowering the count leaves zero only from one. -/
theorem sub_one_ne_zero (count : UInt64) : count - 1 ≠ 0 ↔ count ≠ 1 := by
  rw [ne_eq, ne_eq, UInt64.sub_eq_iff_eq_add, UInt64.zero_add]

/-- **Conditional jumps decide the comparison that set the flags.** Whatever the other bits of the flags register are,
the jumps on the carry and zero bits decide the order of the two words, the jumps on the sign and overflow bits the
order of their signed values, and the opposite jumps the opposite. The branches on the count decide the lowered count
and the zero bit, for any flags. -/
theorem isTaken_compared (registers : RegisterFile) :
    (∀ a b, Compared ((registers .flags).getD 0) a b →
      ((Branch.on .zero).isTaken registers ↔ a = b) ∧
      ((Branch.on .notZero).isTaken registers ↔ a ≠ b) ∧
      ((Branch.on .below).isTaken registers ↔ a < b) ∧
      ((Branch.on .notBelow).isTaken registers ↔ b ≤ a) ∧
      ((Branch.on .notAbove).isTaken registers ↔ a ≤ b) ∧
      ((Branch.on .above).isTaken registers ↔ b < a) ∧
      ((Branch.on .less).isTaken registers ↔ a.toInt64 < b.toInt64) ∧
      ((Branch.on .notLess).isTaken registers ↔ b.toInt64 ≤ a.toInt64) ∧
      ((Branch.on .notGreater).isTaken registers ↔ a.toInt64 ≤ b.toInt64) ∧
      ((Branch.on .greater).isTaken registers ↔ b.toInt64 < a.toInt64)) ∧
    (Branch.loop.isTaken registers ↔ (registers .rcx).getD 0 - 1 ≠ 0) ∧
    (Branch.loopZero.isTaken registers ↔
      (registers .rcx).getD 0 - 1 ≠ 0 ∧ ((registers .flags).getD 0).toNat.testBit 6) ∧
    (Branch.loopNotZero.isTaken registers ↔
      (registers .rcx).getD 0 - 1 ≠ 0 ∧ ¬ ((registers .flags).getD 0).toNat.testBit 6) ∧
    (Branch.counterZero.isTaken registers ↔ (registers .rcx).getD 0 = 0) := by
  have hopposite (c : Condition) : (Branch.on c.opposite).isTaken registers ↔ ¬ (Branch.on c).isTaken registers := by
    simp [Branch.isTaken, Branch.decide, c.holds_opposite]
  have hzero := isSet_eq_testBit .zero ((registers .flags).getD 0)
  refine ⟨fun a b h => ⟨h.holds_zero, ?_, h.holds_below, ?_, h.holds_notAbove, ?_, h.holds_less, ?_,
    h.holds_notGreater, ?_⟩, ?_, ?_, ?_, ?_⟩
  · exact (hopposite .zero).trans h.holds_zero.not
  · exact (hopposite .below).trans (h.holds_below.not.trans UInt64.not_lt)
  · exact (hopposite .notAbove).trans (h.holds_notAbove.not.trans UInt64.not_le)
  · exact (hopposite .less).trans (h.holds_less.not.trans Int64.not_lt)
  · exact (hopposite .notGreater).trans (h.holds_notGreater.not.trans Int64.not_le)
  · simp [Branch.isTaken, Branch.decide, sub_one_ne_zero]
  · simp [Branch.isTaken, Branch.decide, sub_one_ne_zero, hzero, Flag.bit]
  · simp [Branch.isTaken, Branch.decide, sub_one_ne_zero, hzero, Flag.bit]
  · simp [Branch.isTaken, Branch.decide]

/-- At the signed overflow the two orders part: the least signed word is below one as a signed word, and above it as
an unsigned one. The sixty other bits of these flags are set. -/
theorem isTaken_compared_at_overflow :
    (Branch.on .less).isTaken (fun _ => some 0xffffffffffffff3e) ∧
      ¬ (Branch.on .below).isTaken (fun _ => some 0xffffffffffffff3e) := by
  obtain ⟨-, -, hb, -, -, -, hl, -⟩ := (isTaken_compared (fun _ => some 0xffffffffffffff3e)).1
    0x8000000000000000 1 ⟨by decide, by decide, by decide, by decide⟩
  exact ⟨hl.mpr (by decide), hb.not.mpr (by decide)⟩

end TaintReplay.X86
