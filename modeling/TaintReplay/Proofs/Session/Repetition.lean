import TaintReplay.Proofs.Analysis.Union
import TaintReplay.Proofs.Session.Fetch
import TaintReplay.Proofs.Session.Halves

/-!
# Tracing an instruction again

What an instruction writes gets the taint of what it reads, so it reads the same taint again even where it has
overwritten a part of it (`readsTaint_again`). Hence a second evaluation with the same registers changes no taint, and
its record is tainted iff the first one is (`isTainted_step_again`). Tracing the instruction at the program counter
again does not change the taint either, as long as analysis, registers and code are left alone in between
(`isTainted_again`).
-/

namespace TaintReplay

namespace Shadow

variable (s : Shadow) (d : X86.Instruction) {i j : Instruction} (registers : RegisterFile)

/-- After an instruction its flow reads taint iff it did before. -/
theorem readsTaint_again (i : Instruction) :
    (s.step d i registers).1.readsTaint (Flow.of d i.next registers) = s.readsTaint (Flow.of d i.next registers) := by
  have hcell := s.isTainted_step d i registers
  rw [Bool.eq_iff_iff, readsTaint_iff]
  constructor
  · rintro ⟨l, hl, c, hc, htainted⟩
    rw [hcell] at htainted
    split at htainted
    · exact htainted
    · exact s.readsTaint_iff.2 ⟨l, hl, c, hc, htainted⟩
  · intro hreads
    obtain ⟨l, hl, c, hc, htainted⟩ := s.readsTaint_iff.1 hreads
    refine ⟨l, hl, c, hc, ?_⟩
    -- a source that is overwritten gets the taint of all sources, its own among them
    rw [hcell]
    split
    · exact hreads
    · exact htainted

/-- A second evaluation changes no taint. -/
theorem isTainted_step_again (hnext : j.next = i.next) :
    ((s.step d i registers).1.step d j registers).2.tainted = (s.step d i registers).2.tainted ∧
      ∀ c, ((s.step d i registers).1.step d j registers).1.isTainted c = (s.step d i registers).1.isTainted c := by
  have hon : (s.step d i registers).1.taintOn = s.taintOn := by rw [step_fst]
  have hagain := s.readsTaint_again d registers i
  refine ⟨?_, fun c => ?_⟩
  · rw [tainted_step, tainted_step, hnext, hagain, hon]
  · rw [isTainted_step, hnext, hagain, hon]
    split
    · rename_i hwritten
      rw [isTainted_step, if_pos hwritten]
    · rfl

end Shadow

namespace Session

variable {α : Type} {s t : Session α Shadow Recorder} {pc : UInt64}

theorem codeAt_of_control {ε : Type} {s t : Session α ε Recorder} (h : t.control = s.control) (pc : UInt64) :
    t.debugger.codeAt pc = s.debugger.codeAt pc :=
  congrArg (fun c : Control α => c.image.read pc maxInstructionLength) h

/-- An armed trace takes over the step of the instruction at its address. -/
theorem analysis_trace_of_decode (harmed : s.progress.armed = true) {d : X86.Instruction}
    (hd : X86.decode (s.debugger.codeAt pc) = some d) (thread : UInt64) : (s.trace pc thread).1.analysis =
      (s.analysis.step d (recordOf d (s.debugger.codeAt pc) pc thread) s.debugger.register).1 := by
  rw [trace_of_decode harmed hd]
  exact (logs_report _ _).analysis

/-- A trace of what has just been traced changes no taint. -/
theorem isTainted_trace_again (harmed : s.progress.armed = true) {thread : UInt64}
    (hanalysis : t.analysis = (s.trace pc thread).1.analysis) (hregisters : t.debugger.register = s.debugger.register)
    (hcode : t.debugger.codeAt pc = s.debugger.codeAt pc) (other : UInt64) (c : Cell) :
    (t.trace pc other).1.analysis.isTainted c = t.analysis.isTainted c := by
  cases htarmed : t.progress.armed with
  | false => rw [trace_dormant t pc other htarmed]
  | true =>
    cases hd : X86.decode (t.debugger.codeAt pc) with
    | none =>
      rw [trace_of_not_decode htarmed hd]
      rfl
    | some d =>
      have hs := analysis_trace_of_decode harmed (hcode ▸ hd) thread
      rw [analysis_trace_of_decode htarmed hd, hanalysis, hs, hregisters, hcode]
      have hnext : (recordOf d (s.debugger.codeAt pc) pc other).next =
          (recordOf d (s.debugger.codeAt pc) pc thread).next := rfl
      exact (s.analysis.isTainted_step_again d s.debugger.register hnext).2 c

end Session

/-- **Evaluating an instruction again changes no taint.** A second run of the same bytes at the same address with the
same registers leaves the taint of every register and every byte as the first run did, and its record is tainted iff
that of the first run is. So tracing the instruction at the program counter again changes no taint either, whatever else
has happened to the session since the instruction was traced, if analysis, registers and code are still the same. -/
theorem isTainted_again :
    (∀ (s : Shadow) (registers : RegisterFile) {i j : Instruction} {d : X86.Instruction},
      X86.decodeWhole i.opcode = some d → j.opcode = i.opcode → j.address = i.address →
        ∃ t k u l, s.feed i registers = (t, some k) ∧ t.feed j registers = (u, some l) ∧ l.tainted = k.tainted ∧
          ∀ c, u.isTainted c = t.isTainted c) ∧
    ∀ {α : Type} (s t : Session α Shadow Recorder) {pc thread : UInt64},
      s.progress.armed = true → s.debugger.register .counter = some pc →
        t.analysis = (s.trace pc thread).1.analysis → t.debugger.register = s.debugger.register →
          t.debugger.codeAt pc = s.debugger.codeAt pc →
            ∀ c, t.reanalyze.1.analysis.isTainted c = t.analysis.isTainted c := by
  constructor
  · intro s registers i j d hd hopcode haddress
    have hnext : (Shadow.describe d j).next = (Shadow.describe d i).next := by
      show j.address + UInt64.ofNat j.opcode.length = i.address + UInt64.ofNat i.opcode.length
      rw [haddress, hopcode]
    have hagain := s.isTainted_step_again d registers hnext
    exact ⟨_, _, _, _, s.feed_of_decodes i registers hd, Shadow.feed_of_decodes _ j registers (hopcode ▸ hd), hagain⟩
  · intro α s t pc thread harmed hcounter hanalysis hregisters hcode c
    have hpc : Debugger.register t.debugger .counter = some pc := (congrFun hregisters _).trans hcounter
    unfold Session.reanalyze
    rw [hpc]
    dsimp only
    generalize hu : t.inform .events _ = u
    have hcontrol : u.control = t.control := hu ▸ t.control_inform _ _
    have huanalysis : u.analysis = t.analysis := congrArg Findings.analysis (hu ▸ t.findings_inform _ _)
    rw [Session.isTainted_trace_again harmed (huanalysis.trans hanalysis)
      ((Session.register_of_control hcontrol).trans hregisters) ((Session.codeAt_of_control hcontrol pc).trans hcode),
      huanalysis]

/-- A push of eight bytes that reach into its own slot, one of the others tainted: both runs are tainted, and the second
changes nothing. -/
theorem isTainted_again_overlapping :
    let s : Shadow := Shadow.addSource {} (.memory 0x300a 1) "0x300a"
    let i : Instruction := { address := 0x1000, thread := 1, opcode := [0xff, 0x74, 0x24, 0xfc] }
    let registers : RegisterMap UInt64 := ⟨[(.rsp, 0x3008), (.counter, 0x1000)]⟩
    let image : Image := { segments := [⟨0x1000, #[0xff, 0x74, 0x24, 0xfc], by decide⟩] }
    let r : Session Unit Shadow Recorder :=
      { options := {}, analysis := s, debugger := { image, registers }, progress := { armed := true } }
    (∃ t k u l, s.feed i registers.get? = (t, some k) ∧ t.feed i registers.get? = (u, some l) ∧ k.tainted = true ∧
      l.tainted = true ∧ ∀ c, u.isTainted c = t.isTainted c) ∧
      ∀ c, (r.trace 0x1000 1).1.reanalyze.1.analysis.isTainted c = (r.trace 0x1000 1).1.analysis.isTainted c := by
  intro s i registers image r
  constructor
  · obtain ⟨d, hd⟩ : ∃ d, X86.decodeWhole i.opcode = some d := Option.isSome_iff_exists.1 (by decide +kernel)
    obtain ⟨t, k, u, l, hfirst, hsecond, htainted, hsame⟩ := isTainted_again.1 s registers.get? hd rfl rfl
    have hflag : (s.feed i registers.get?).2.map (·.tainted) = some true := by decide +kernel
    have hk : k.tainted = true := by simpa [hfirst] using hflag
    exact ⟨t, k, u, l, hfirst, hsecond, hk, htainted.trans hk, hsame⟩
  · have hcounter : r.debugger.register .counter = some 0x1000 := rfl
    have hcontrol : (r.trace 0x1000 1).1.control = r.control := r.control_trace 0x1000 1
    have hregisters := Session.register_of_control hcontrol
    have hcode := Session.codeAt_of_control hcontrol 0x1000
    exact isTainted_again.2 r (r.trace 0x1000 1).1 rfl hcounter (Eq.refl (r.trace 0x1000 1).1.analysis) hregisters hcode

end TaintReplay
