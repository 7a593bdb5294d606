import TaintReplay.Debugger.Recorder
import TaintReplay.Proofs.Analysis.Spread
import TaintReplay.Proofs.X86.Operands
import TaintReplay.Session.Trace

/-!
# What one trace does

Most of what a session does around a trace leaves its options, its analysis and its log of constraints alone
(`Session.Keeps`). An armed trace has three courses, whatever the debugger is: nothing can be fetched
(`trace_unfetched`), what is fetched is no instruction (`trace_undecoded`), or the instruction is reported
(`trace_decoded`). `Session.examine` is the decoded instruction that a trace looks at, if it can be fetched and decoded.
A trace of a session that is not armed does nothing (`trace_dormant`). An armed one is given up if there is nothing to
examine (`trace_unexamined`), and else takes over the shadow step of the instruction and logs the constraint of a
symbolic branch (`trace_examined`).
-/

namespace TaintReplay

namespace Session

section Keeps

variable {α ε η : Type}

/-- The later session has the options, the analysis and the log of the earlier one. -/
structure Keeps (s t : Session α ε η) : Prop where
  options : t.options = s.options
  analysis : t.analysis = s.analysis
  constraints : t.progress.constraints = s.progress.constraints

theorem Keeps.refl (s : Session α ε η) : s.Keeps s := ⟨rfl, rfl, rfl⟩

theorem Keeps.trans {s t u : Session α ε η} (h₁ : s.Keeps t) (h₂ : t.Keeps u) : s.Keeps u :=
  ⟨h₂.options.trans h₁.options, h₂.analysis.trans h₁.analysis, h₂.constraints.trans h₁.constraints⟩

/-- What the debugger does is no matter. -/
theorem Keeps.debug {s t : Session α ε η} (h : s.Keeps t) (debugger : η) : s.Keeps { t with debugger } :=
  ⟨h.options, h.analysis, h.constraints⟩

/-- Neither are the counters. -/
theorem Keeps.count {s t : Session α ε η} (h : s.Keeps t) {progress : Progress α}
    (hp : progress.constraints = t.progress.constraints) : s.Keeps { t with progress } :=
  ⟨h.options, h.analysis, hp.trans h.constraints⟩

theorem Keeps.ite {s t u : Session α ε η} {c : Prop} [Decidable c] (ht : s.Keeps t) (hu : s.Keeps u) :
    s.Keeps (if c then t else u) := by
  split
  · exact ht
  · exact hu

/-- The session logs a constraint, if there is one, and keeps its options and its analysis. -/
structure Logs (s : Session α ε η) (constraint : Option PathConstraint) (t : Session α ε η) : Prop where
  options : t.options = s.options
  analysis : t.analysis = s.analysis
  constraints : t.progress.constraints = s.progress.constraints ++ constraint.toList

theorem Logs.of_keeps {s t u : Session α ε η} {k : Option PathConstraint} (h : s.Keeps t) (hl : t.Logs k u) :
    s.Logs k u :=
  ⟨hl.options.trans h.options, hl.analysis.trans h.analysis, by rw [hl.constraints, h.constraints]⟩

variable [Debugger η] {s t : Session α ε η}

theorem Keeps.inform (h : s.Keeps t) (component : Component) (text : String) : s.Keeps (t.inform component text) :=
  .ite (h.debug _) h

theorem Keeps.detail (h : s.Keeps t) (component : Component) (text : String) : s.Keeps (t.detail component text) :=
  .ite (h.debug _) h

theorem Keeps.commentControlled (h : s.Keeps t) (i : Instruction) : s.Keeps (t.commentControlled i) :=
  .ite (h.debug _) h

theorem Keeps.tagFunction (h : s.Keeps t) (address : UInt64) : s.Keeps (t.tagFunction address) := by
  unfold Session.tagFunction
  split
  · exact h
  · split
    · exact h
    · dsimp only
      split
      · exact h.debug _
      · exact .count (.detail (h.debug _) _ _) rfl

theorem Keeps.highlight (h : s.Keeps t) (i : Instruction) : s.Keeps (t.highlight i) := by
  have hmark : s.Keeps { t with progress := { t.progress with marked := true } } := h.count rfl
  exact .ite (.debug (.ite (.tagFunction (hmark.inform _ _) _) (hmark.inform _ _)) _) h

variable [Analyzer ε]

theorem Keeps.commentExpressions (h : s.Keeps t) (i : Instruction) : s.Keeps (t.commentExpressions i) :=
  .ite (h.debug _) h

/-! ## Reports -/

/-- The constraint of a branch, as long as it has a target. -/
def constraintOf (analysis : ε) (i : Instruction) : Option PathConstraint :=
  i.successors.map fun (taken, notTaken) =>
    { symbol := (Analyzer.pathSymbol analysis).getD 0, source := i.address, taken, notTaken }

variable (s)

theorem recordBranch_snd (i : Instruction) : (s.recordBranch i).2 = constraintOf s.analysis i := by
  unfold recordBranch constraintOf
  cases hs : i.successors with
  | none => rfl
  | some successors =>
    obtain ⟨taken, notTaken⟩ := successors
    dsimp only [Option.map_some]
    rw [((Keeps.refl s).inform _ _).analysis]
    cases hp : Analyzer.pathSymbol s.analysis <;> rfl

theorem logs_recordBranch (i : Instruction) : s.Logs (s.recordBranch i).2 (s.recordBranch i).1 := by
  unfold recordBranch
  cases hs : i.successors with
  | none => exact ⟨rfl, rfl, by simp [say]⟩
  | some successors =>
    obtain ⟨taken, notTaken⟩ := successors
    dsimp only
    generalize ht : s.inform .tracing _ = t
    have hk : s.Keeps t := ht ▸ (Keeps.refl s).inform _ _
    cases hp : Analyzer.pathSymbol t.analysis with
    | none => exact ⟨hk.options, hk.analysis, by simp [say, hk.constraints]⟩
    | some symbol => exact ⟨hk.options, hk.analysis, by simp [hk.constraints]⟩

/-- The constraint that the report of an instruction logs. -/
def reportedConstraint (analysis : ε) (i : Instruction) : Option PathConstraint :=
  if i.branch && i.symbolized then constraintOf analysis i else none

theorem report_snd (i : Instruction) :
    (s.report i).2 = .traced i.tainted i.symbolized (reportedConstraint s.analysis i) := by
  have hk := (((Keeps.refl s).commentControlled i).commentExpressions i).highlight i.trust
  unfold report reportedConstraint
  dsimp only [Instruction.trust]
  split
  · rw [recordBranch_snd]
    exact congrArg (fun a => Outcome.traced i.tainted i.symbolized (constraintOf a i)) hk.analysis
  · rfl

/-- A report makes its instruction the current one. -/
theorem current_report (i : Instruction) : (s.report i).1.progress.current = some i.trust := rfl

theorem logs_report (i : Instruction) : s.Logs (reportedConstraint s.analysis i) (s.report i).1 := by
  have hk := (((Keeps.refl s).commentControlled i).commentExpressions i).highlight i.trust
  refine .of_keeps hk ?_
  unfold report reportedConstraint
  dsimp only
  generalize hs : ((s.commentControlled i).commentExpressions i).highlight i.trust = t at hk ⊢
  by_cases hb : (i.branch && i.symbolized) = true
  · have hl := t.logs_recordBranch i.trust
    rw [recordBranch_snd, hk.analysis] at hl
    rw [if_pos hb, if_pos (show (i.trust.branch && i.trust.symbolized) = true from hb)]
    exact ⟨hl.options, hl.analysis, hl.constraints⟩
  · rw [if_neg hb, if_neg (show ¬(i.trust.branch && i.trust.symbolized) = true from hb)]
    exact ⟨rfl, rfl, (List.append_nil _).symm⟩

end Keeps

/-! ## Courses of a trace -/

section Course

variable {α η : Type} [Debugger η] {s : Session α Shadow η} {pc thread : UInt64} {i : Instruction}

/-- What is fetched has a place and bytes. -/
theorem exists_of_fetch {debugger : η} (h : fetch debugger pc thread = .ok i) :
    ∃ bytes, i = ({ address := pc, thread } : Instruction).withOpcode bytes := by
  unfold fetch at h
  split at h
  · split at h
    · dsimp only at h
      split at h
      · cases h
      · exact ⟨_, (Except.ok.inj h).symm⟩
    · cases h
  · cases h

/-- An armed trace is given up where nothing can be fetched. -/
theorem trace_unfetched (harmed : s.progress.armed = true) {cause : TraceError}
    (hf : fetch s.debugger pc thread = .error cause) :
    s.trace pc thread = (s.setCurrent { address := pc, thread }).abandon cause := by
  unfold trace
  rw [if_pos harmed]
  dsimp only [setCurrent]
  rw [hf]

/-- It is also given up where the bytes are no instruction. -/
theorem trace_undecoded (harmed : s.progress.armed = true) (hf : fetch s.debugger pc thread = .ok i)
    (hd : X86.decodeWhole i.opcode = none) :
    s.trace pc thread = (s.setCurrent i).abandon (.disassembly pc i.opcode (.invalidOpcode i.opcode)) := by
  unfold trace
  rw [if_pos harmed]
  dsimp only [setCurrent]
  rw [hf]
  dsimp only
  rw [Shadow.disassemble_of_not_decodes _ hd]

/-- Everywhere else it reports the instruction, whatever the debugger is. -/
theorem trace_decoded (harmed : s.progress.armed = true) (hf : fetch s.debugger pc thread = .ok i)
    {d : X86.Instruction} (hd : X86.decodeWhole i.opcode = some d) :
    let told := (s.setCurrent { address := pc, thread }).inform .tracing
      ("[+] Tracing " ++ (Shadow.describe d i).render)
    let stepped := s.analysis.step d (Shadow.describe d i) (Debugger.register told.debugger)
    s.trace pc thread = (told.advance stepped.1).report stepped.2 := by
  intro told stepped
  have hkeeps : s.Keeps told := by
    refine .inform (.count (.refl s) ?_) _ _
    rfl
  have hfetch : fetch (s.setCurrent { address := pc, thread }).debugger pc thread = .ok i := hf
  have hdisassemble : Analyzer.disassemble (s.setCurrent { address := pc, thread }).analysis i =
      .ok (Shadow.describe d i) := Shadow.disassemble_of_decodes _ hd
  have hevaluate : Analyzer.evaluate told.analysis (Shadow.describe d i) (Debugger.register told.debugger) =
      .ok stepped := by
    rw [hkeeps.analysis, Shadow.evaluate_describe _ hd]
  unfold trace
  rw [if_pos harmed]
  dsimp only
  rw [hfetch]
  dsimp only
  rw [hdisassemble]
  dsimp only
  rw [hevaluate]

end Course

/-! ## Traces -/

section Trace

variable {α : Type} (s : Session α Shadow Recorder) (pc thread : UInt64)

/-- The decoded instruction at an address and its record, if it can be fetched and decoded. -/
def examine : Option (X86.Instruction × Instruction) :=
  match fetch s.debugger pc thread with
  | .error _ => none
  | .ok i => (X86.decodeWhole i.opcode).map fun d => (d, Shadow.describe d i)

/-- The record of a decoded instruction, before it is evaluated. -/
structure Describes (pc : UInt64) (d : X86.Instruction) (i : Instruction) : Prop where
  decoded : X86.decode i.opcode = some d
  address : i.address = pc
  text : i.text = d.text
  next : i.next = pc + UInt64.ofNat d.length
  branch : i.branch = d.opcode.branch?.isSome
  target : ∀ b distance, d.opcode = .branch b → d.operands = [.relative distance] →
    i.target = some (i.next + UInt64.ofInt distance)

variable {s pc thread} in
theorem describes_of_examine {d : X86.Instruction} {i : Instruction} (he : s.examine pc thread = some (d, i)) :
    Describes pc d i := by
  unfold examine at he
  cases hf : fetch s.debugger pc thread with
  | error cause => simp [hf] at he
  | ok fetched =>
    rw [hf] at he
    obtain ⟨d', hd, hdi⟩ := Option.map_eq_some_iff.1 he
    obtain ⟨rfl, rfl⟩ := Prod.mk.inj hdi
    obtain ⟨hdecode, hlength⟩ := X86.decode_of_decodeWhole hd
    obtain ⟨bytes, hfetched⟩ := exists_of_fetch hf
    have haddress : fetched.address = pc := by rw [hfetched]; rfl
    exact {
      decoded := hdecode
      address := haddress
      text := rfl
      next := by rw [hlength, ← haddress]; rfl
      branch := rfl
      target := by
        intro b distance hb ho
        simp [Shadow.describe, X86.Opcode.branch?, resolve, resolveOperand, Shadow.targetOf, hb, ho] }

/-- Writing a line leaves the registers alone. -/
theorem register_inform (component : Component) (text : String) :
    Debugger.register (s.inform component text).debugger = s.debugger.register := by
  unfold inform
  split <;> rfl

/-- Without being armed a session does not trace. -/
theorem trace_dormant (h : s.progress.armed = false) : s.trace pc thread = (s, .dormant) := by
  simp [trace, h]

/-- An instruction that cannot be examined leaves the analysis and the log alone. -/
theorem trace_unexamined (h : s.progress.armed = true) (he : s.examine pc thread = none) :
    ∃ cause, (s.trace pc thread).2 = .abandoned cause ∧ s.Keeps (s.trace pc thread).1 := by
  unfold examine at he
  cases hf : fetch s.debugger pc thread with
  | error cause =>
    rw [trace_unfetched h hf]
    exact ⟨cause, rfl, rfl, rfl, rfl⟩
  | ok i =>
    rw [hf] at he
    rw [trace_undecoded h hf (by simpa using he)]
    exact ⟨_, rfl, rfl, rfl, rfl⟩

/-- An armed session takes over the step of the instruction that it examines, and logs the constraint of its record. -/
theorem trace_examined (h : s.progress.armed = true) {d : X86.Instruction} {i : Instruction}
    (he : s.examine pc thread = some (d, i)) :
    let stepped := s.analysis.step d i s.debugger.register
    let constraint := reportedConstraint stepped.1 stepped.2
    (s.trace pc thread).2 = .traced stepped.2.tainted stepped.2.symbolized constraint ∧
      Logs { s with analysis := stepped.1 } constraint (s.trace pc thread).1 := by
  unfold examine at he
  cases hf : fetch s.debugger pc thread with
  | error cause => simp [hf] at he
  | ok fetched =>
    rw [hf] at he
    obtain ⟨d', hd, hdi⟩ := Option.map_eq_some_iff.1 he
    obtain ⟨rfl, rfl⟩ := Prod.mk.inj hdi
    have htrace := trace_decoded h hf hd
    dsimp only at htrace
    rw [register_inform] at htrace
    rw [htrace]
    generalize hu : (s.setCurrent { address := pc, thread }).inform .tracing _ = u
    have hk : s.Keeps u := by
      rw [← hu]
      refine .inform (.count (.refl s) ?_) _ _
      rfl
    dsimp only [setCurrent]
    generalize s.analysis.step d' (Shadow.describe d' fetched) s.debugger.register = stepped
    have hl := (u.advance stepped.1).logs_report stepped.2
    refine ⟨(u.advance stepped.1).report_snd stepped.2, hl.options.trans hk.options, hl.analysis, ?_⟩
    rw [← hk.constraints]
    exact hl.constraints

end Trace

end Session

end TaintReplay
