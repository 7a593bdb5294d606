import TaintReplay.Proofs.Replay.Call
import TaintReplay.Proofs.Session.Fetch

/-!
# How a trace fails

In a replay the debugger and the analysis read one image and use one decoder. So an armed trace fails iff the bytes at
its address begin with no instruction, and always with the same cause, that there is nothing to decode: no trace of a
run gets as far as a failed disassembly or a failed evaluation (`outcome_of_armed`).
-/

namespace TaintReplay

open Session

namespace Replay

/-- A trace that is given up found nothing to decode. -/
theorem cause_of_abandoned (r : Replay) {pc thread : UInt64} {cause : TraceError}
    (h : (r.trace pc thread).2 = .abandoned cause) : cause = .decode pc := by
  cases harmed : r.progress.armed with
  | false =>
    rw [r.trace_dormant pc thread harmed] at h
    cases h
  | true =>
    cases hd : X86.decode (r.debugger.codeAt pc) with
    | some d =>
      rw [trace_of_decode harmed hd thread, report_snd] at h
      cases h
    | none =>
      rw [trace_of_not_decode harmed hd thread] at h
      exact (Outcome.abandoned.inj h).symm

/-- An armed trace of what decodes makes the instruction the current one, with the bytes that it takes. -/
theorem exists_current_of_decode {r : Replay} (harmed : r.progress.armed = true) {pc : UInt64} {d : X86.Instruction}
    (hd : X86.decode (r.debugger.codeAt pc) = some d) (thread : UInt64) :
    (r.trace pc thread).2.isTraced = true ∧ ∃ i, (r.trace pc thread).1.progress.current = some i ∧ i.address = pc ∧
      i.thread = thread ∧ i.opcode = (r.debugger.codeAt pc).take d.length ∧ i.next = pc + UInt64.ofNat d.length := by
  rw [trace_of_decode harmed hd thread, report_snd, current_report]
  refine ⟨rfl, _, rfl, ?_⟩
  unfold Instruction.trust
  rw [Shadow.step_snd]
  exact ⟨rfl, rfl, opcode_recordOf r.debugger d pc thread, next_recordOf hd thread⟩

/-- The debugger, the decoder and the analysis agree, so what an armed trace comes to depends on the bytes at its
address alone, of which it looks at no more than an instruction can have. It traces iff they begin with an instruction.
Then the current instruction has exactly the bytes that this one takes, and goes on right behind them. Otherwise the
trace fails for want of something to decode, and no trace of any run fails for another cause. -/
theorem outcome_of_armed (r : Replay) (h : r.progress.armed = true) (pc thread : UInt64) :
    let code := r.debugger.codeAt pc
    let t := r.trace pc thread
    code.length ≤ maxInstructionLength ∧
      (t.2.isTraced = true ↔ code ≠ [] ∧ ∃ d, X86.decode code = some d) ∧
      (∀ d, X86.decode code = some d → 0 < d.length ∧ d.length ≤ code.length ∧
        ∃ i, t.1.progress.current = some i ∧ i.address = pc ∧ i.thread = thread ∧ i.opcode = code.take d.length ∧
          i.next = pc + UInt64.ofNat d.length) ∧
      (t.2.isTraced = false → t.2 = .abandoned (.decode pc)) ∧
      ∀ options image steps, ∀ c ∈ (start options image).calls steps, ∀ cause,
        c.run.2 = .abandoned cause → cause = .decode c.pc := by
  intro code t
  have hnil : X86.decode [] = none := rfl
  refine ⟨r.debugger.image.length_read_le pc maxInstructionLength, ⟨fun htraced => ?_, ?_⟩, fun d hd => ?_, ?_, ?_⟩
  · cases hd : X86.decode code with
    | some d =>
      refine ⟨fun hcode => ?_, d, rfl⟩
      rw [hcode, hnil] at hd
      cases hd
    | none =>
      have hfailed : t.2 = .abandoned (.decode pc) := congrArg Prod.snd (trace_of_not_decode h hd thread)
      rw [hfailed] at htraced
      cases htraced
  · rintro ⟨-, d, hd⟩
    exact (exists_current_of_decode h hd thread).1
  · exact ⟨X86.length_pos_of_decode hd, X86.length_le_of_decode hd, (exists_current_of_decode h hd thread).2⟩
  · intro huntraced
    cases hd : X86.decode code with
    | some d =>
      have htraced : t.2.isTraced = true := (exists_current_of_decode h hd thread).1
      rw [huntraced] at htraced
      cases htraced
    | none => exact congrArg Prod.snd (trace_of_not_decode h hd thread)
  · exact fun options image steps c _ cause hcause => c.session.cause_of_abandoned hcause

/-- The segment ends within the second instruction: the first one is traced, and the trace of the second fails. -/
theorem outcome_of_armed_cut :
    let r := (start {} { segments := [⟨0x1000, #[0x48, 0x89, 0xf8, 0x48, 0x89], by decide⟩] }).after
      [.registers [("rip", 0x2000)], .taintRegister "rdi"]
    r.progress.armed = true ∧
      (∃ i, (r.trace 0x1000 1).1.progress.current = some i ∧ i.opcode = [0x48, 0x89, 0xf8] ∧ i.next = 0x1003) ∧
      (r.trace 0x1003 1).2 = .abandoned (.decode 0x1003) := by
  intro r
  have harmed : r.progress.armed = true := by decide +kernel
  obtain ⟨-, -, hfirst, -, -⟩ := outcome_of_armed r harmed 0x1000 1
  obtain ⟨-, hsecond, -, hfailed, -⟩ := outcome_of_armed r harmed 0x1003 1
  have hmov : (X86.decode (r.debugger.codeAt 0x1000)).map (·.length) = some 3 := by decide +kernel
  have hcut : X86.decode (r.debugger.codeAt 0x1003) = none := by decide +kernel
  obtain ⟨d, hd, hlength⟩ := Option.map_eq_some_iff.1 hmov
  obtain ⟨-, -, i, hi, -, -, hopcode, hnext⟩ := hfirst d hd
  refine ⟨harmed, ⟨i, hi, ?_, ?_⟩, hfailed (eq_false_of_ne_true fun htraced => ?_)⟩
  · rw [hopcode, hlength]
    decide +kernel
  · rw [hnext, hlength]
    rfl
  · obtain ⟨-, d, hd⟩ := hsecond.1 htraced
    rw [hcut] at hd
    cases hd

end Replay

end TaintReplay
