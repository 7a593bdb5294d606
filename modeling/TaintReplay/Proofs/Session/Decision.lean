import Mathlib.Logic.Function.Basic
import TaintReplay.Proofs.Analysis.Flags
import TaintReplay.Proofs.Session.Trace

/-!
# What a decision depends on

A conditional branch depends on a register if two values of it, with all other registers alike, lead to different
decisions. The conditions depend on the flags, and the branches on the count depend on the count register; of these,
`loopz` and `loopnz` alone depend on the flags as well (`dependsOn_iff`).

The marks of a branch come from a list of their own, in which the flags stand for every branch. So a branch is tainted,
or symbolic, iff a register is on which its decision depends, but `jrcxz` and `loop` also if the flags are, which they
never look at (`tainted_of_branch`). A symbolic one leaves a path constraint that no input can influence
(`exists_constraint_without_influence`).
-/

namespace TaintReplay

namespace X86

/-- The decision of the branch depends on the register: for some values of the others, two values of the register lead
to different decisions. -/
def Branch.DependsOn (b : Branch) (r : Register) : Prop :=
  ∃ (registers : RegisterFile) (v w : UInt64),
    b.isTaken (Function.update registers r (some v)) ≠ b.isTaken (Function.update registers r (some w))

/-- Every condition tells the clear flags from other ones. -/
theorem Condition.exists_holds_ne (c : Condition) : ∃ flags, c.holds 0 ≠ c.holds flags := by
  cases c
  case overflow | notOverflow => exact ⟨0x800, by decide⟩
  -- carry, parity, zero and sign, but no overflow
  all_goals exact ⟨0xc5, by decide⟩

namespace Branch

variable (b : Branch)

theorem isTaken_update_flags (registers : RegisterFile) (v : UInt64) :
    b.isTaken (Function.update registers .flags (some v)) = b.decide v ((registers .rcx).getD 0) := by
  have hne : Register.rcx ≠ .flags := nofun
  rw [isTaken, Function.update_self, Function.update_of_ne hne, Option.getD_some]

theorem isTaken_update_rcx (registers : RegisterFile) (v : UInt64) :
    b.isTaken (Function.update registers .rcx (some v)) = b.decide ((registers .flags).getD 0) v := by
  have hne : Register.flags ≠ .rcx := nofun
  rw [isTaken, Function.update_self, Function.update_of_ne hne, Option.getD_some]

/-- No other register plays a part. -/
theorem not_dependsOn {r : Register} (hflags : r ≠ .flags) (hrcx : r ≠ .rcx) : ¬ b.DependsOn r := by
  rintro ⟨registers, v, w, hne⟩
  apply hne
  simp only [isTaken, Function.update_of_ne hflags.symm, Function.update_of_ne hrcx.symm]

theorem dependsOn_flags_iff_decide : b.DependsOn .flags ↔ ∃ count v w, b.decide v count ≠ b.decide w count := by
  constructor
  · rintro ⟨registers, v, w, hne⟩
    rw [isTaken_update_flags, isTaken_update_flags] at hne
    exact ⟨_, v, w, hne⟩
  · rintro ⟨count, v, w, hne⟩
    refine ⟨fun _ => some count, v, w, ?_⟩
    rwa [isTaken_update_flags, isTaken_update_flags]

theorem dependsOn_rcx_iff_decide : b.DependsOn .rcx ↔ ∃ flags v w, b.decide flags v ≠ b.decide flags w := by
  constructor
  · rintro ⟨registers, v, w, hne⟩
    rw [isTaken_update_rcx, isTaken_update_rcx] at hne
    exact ⟨_, v, w, hne⟩
  · rintro ⟨flags, v, w, hne⟩
    refine ⟨fun _ => some flags, v, w, ?_⟩
    rwa [isTaken_update_rcx, isTaken_update_rcx]

/-- The flags decide every branch but those that look at the count alone. -/
theorem dependsOn_flags_iff : b.DependsOn .flags ↔ ¬ (b = .counterZero ∨ b = .loop) := by
  rw [dependsOn_flags_iff_decide]
  cases b with
  | on c =>
    obtain ⟨flags, hne⟩ := c.exists_holds_ne
    exact ⟨fun _ => by simp, fun _ => ⟨0, 0, flags, hne⟩⟩
  | counterZero | loop => simp [decide]
  | loopZero | loopNotZero => exact ⟨fun _ => by simp, fun _ => ⟨0, 0, 0x40, by decide⟩⟩

/-- The count decides the branches that use it. -/
theorem dependsOn_rcx_iff : b.DependsOn .rcx ↔ b.usesCounter = true := by
  rw [dependsOn_rcx_iff_decide]
  cases b with
  | on c => simp [decide, usesCounter]
  | counterZero | loop | loopNotZero => exact ⟨fun _ => rfl, fun _ => ⟨0, 0, 1, by decide⟩⟩
  | loopZero => exact ⟨fun _ => rfl, fun _ => ⟨0x40, 0, 1, by decide⟩⟩

/-- The registers on which the decision of a branch depends. -/
theorem dependsOn_iff (r : Register) : b.DependsOn r ↔
    r = .flags ∧ ¬ (b = .counterZero ∨ b = .loop) ∨ r = .rcx ∧ b.usesCounter = true := by
  by_cases hflags : r = .flags
  · subst hflags
    simpa using b.dependsOn_flags_iff
  · by_cases hrcx : r = .rcx
    · subst hrcx
      simpa using b.dependsOn_rcx_iff
    · simp [b.not_dependsOn hflags hrcx, hflags, hrcx]

/-- Some register that the branch depends on is marked, or the flags are, iff the flags are marked or the count is and
the branch uses it. -/
theorem exists_dependsOn_iff (marked : Register → Bool) :
    (∃ r, (b.DependsOn r ∨ r = .flags ∧ (b = .counterZero ∨ b = .loop)) ∧ marked r = true) ↔
      marked .flags = true ∨ b.usesCounter = true ∧ marked .rcx = true := by
  have hinputs (r : Register) : b.DependsOn r ∨ r = .flags ∧ (b = .counterZero ∨ b = .loop) ↔
      r = .flags ∨ r = .rcx ∧ b.usesCounter = true := by
    rw [b.dependsOn_iff]
    by_cases hcount : b = .counterZero ∨ b = .loop <;> tauto
  simp only [hinputs]
  constructor
  · rintro ⟨r, rfl | ⟨rfl, hcount⟩, hr⟩
    · exact .inl hr
    · exact .inr ⟨hcount, hr⟩
  · rintro (hr | ⟨hcount, hr⟩)
    · exact ⟨.flags, .inl rfl, hr⟩
    · exact ⟨.rcx, .inr ⟨rfl, hcount⟩, hr⟩

end Branch

end X86

/-! ## Marks of a branch -/

namespace Shadow

variable (s : Shadow) {i : Instruction} {d : X86.Instruction} {b : X86.Branch}

/-- The report of a branch logs a constraint iff the branch is symbolic, for it has a target. -/
theorem isSome_reportedConstraint (hd : X86.decodeWhole i.opcode = some d) (hb : d.opcode = .branch b)
    (registers : RegisterFile) :
    let stepped := s.step d (describe d i) registers
    (Session.reportedConstraint stepped.1 stepped.2).isSome = stepped.2.symbolized := by
  intro stepped
  obtain ⟨distance, ho⟩ := X86.operands_of_branch (X86.decode_of_decodeWhole hd).1 hb
  have hbranch : stepped.2.branch = true := by
    rw [branch_step]
    simp [describe, hb, X86.Opcode.branch?]
  have htarget : stepped.2.target.isSome = true := by
    rw [target_step]
    simp [describe, hb, ho, X86.Opcode.branch?, resolve, resolveOperand, targetOf]
  unfold Session.reportedConstraint Session.constraintOf Instruction.successors
  rw [hbranch, Bool.true_and]
  cases stepped.2.symbolized with
  | false => rfl
  | true => simpa using htarget

/-- **A branch carries the marks of what its decision depends on.** A conditional branch is tainted, and likewise
symbolic, iff a register on which its decision depends is; `jrcxz` and `loop`, which do not depend on the flags, are
also if the flags are. It leaves a constraint iff it is symbolic. -/
theorem tainted_of_branch (hd : X86.decodeWhole i.opcode = some d) (hb : d.opcode = .branch b)
    (registers : RegisterFile) :
    ∃ j t k, Analyzer.disassemble s i = .ok j ∧ Analyzer.evaluate s j registers = .ok (t, k) ∧
      k.taken = b.isTaken registers ∧
      (k.tainted = true ↔ s.taintOn = true ∧
        ∃ r, (b.DependsOn r ∨ r = .flags ∧ (b = .counterZero ∨ b = .loop)) ∧ s.isTainted (.register r) = true) ∧
      (k.symbolized = true ↔ s.symbolicOn = true ∧
        ∃ r, (b.DependsOn r ∨ r = .flags ∧ (b = .counterZero ∨ b = .loop)) ∧ s.isSymbolic (.register r) = true) ∧
      (Session.reportedConstraint t k).isSome = k.symbolized ∧
      (b.DependsOn .flags ↔ ¬ (b = .counterZero ∨ b = .loop)) ∧ (b.DependsOn .rcx ↔ b.usesCounter = true) := by
  refine ⟨describe d i, (s.step d (describe d i) registers).1, (s.step d (describe d i) registers).2,
    s.disassemble_of_decodes hd, s.evaluate_describe hd registers, ?_, ?_, ?_, s.isSome_reportedConstraint hd hb _,
    b.dependsOn_flags_iff, b.dependsOn_rcx_iff⟩
  · have hbranch : (describe d i).branch = true := by simp [describe, hb, X86.Opcode.branch?]
    rw [step_snd, if_pos hbranch, hb]
    rfl
  · rw [tainted_step_of_branch s _ registers hb, b.exists_dependsOn_iff (s.isTainted <| .register ·), flagsCell]
  · rw [symbolized_step_of_branch s _ registers hb, b.exists_dependsOn_iff (s.isSymbolic <| .register ·), flagsCell]

/-- A `loopz` with a tainted count is tainted, although the flags are clean. -/
theorem tainted_of_branch_loopz :
    let s : Shadow := addSource {} (.register .rcx) "rcx"
    let i : Instruction := { address := 0x1000, thread := 1, opcode := [0xe1, 0x00] }
    ∃ j t k, Analyzer.disassemble s i = .ok j ∧ Analyzer.evaluate s j (fun _ => none) = .ok (t, k) ∧
      s.isTainted (.register .flags) = false ∧ k.tainted = true := by
  intro s i
  have hd : X86.decodeWhole i.opcode = some ⟨.branch .loopZero, [.relative 0], [], 2⟩ := by decide +kernel
  obtain ⟨j, t, k, hj, hk, -, htainted, -, -, -, hrcx⟩ := s.tainted_of_branch hd rfl (fun _ => none)
  exact ⟨j, t, k, hj, hk, by decide +kernel, htainted.2 ⟨rfl, .rcx, .inl (hrcx.2 rfl), by decide +kernel⟩⟩

/-- A `jrcxz` leaves a constraint when the flags hold an expression, although it depends on the count alone, which
neither is tainted nor holds one. -/
theorem exists_constraint_without_influence :
    let s : Shadow := addSource { symbolicOn := true } (.register .flags) "rflags"
    let i : Instruction := { address := 0x1000, thread := 1, opcode := [0xe3, 0x05] }
    ∃ d j t k, X86.decodeWhole i.opcode = some d ∧ d.opcode = .branch .counterZero ∧
      (∀ r, X86.Branch.counterZero.DependsOn r →
        s.isTainted (.register r) = false ∧ s.isSymbolic (.register r) = false) ∧
      Analyzer.disassemble s i = .ok j ∧ Analyzer.evaluate s j (fun _ => none) = .ok (t, k) ∧
      k.tainted = true ∧ k.symbolized = true ∧ (Session.reportedConstraint t k).isSome = true := by
  intro s i
  have hd : X86.decodeWhole i.opcode = some ⟨.branch .counterZero, [.relative 5], [], 2⟩ := by decide +kernel
  refine ⟨_, _, _, _, hd, rfl, fun r hr => ?_, s.disassemble_of_decodes hd, s.evaluate_describe hd _, ?_, ?_, ?_⟩
  · obtain ⟨-, hflags⟩ | ⟨rfl, -⟩ := (X86.Branch.dependsOn_iff _ r).1 hr
    · exact absurd (.inl rfl) hflags
    · decide +kernel
  all_goals decide +kernel

end Shadow

end TaintReplay
