import TaintReplay.Proofs.Session.Fetch
import TaintReplay.Proofs.Session.Halves

/-!
# What a trace does not look at

An `Edit` changes registers, requests, counts and lines, and passes the lines of a trace on. A trace writes no
registers, requests or counts, and looks at none of them but the registers, which it looks up. So tracing after an edit
is tracing before it, as long as the edit keeps the register file (`trace_edit`).
-/

namespace TaintReplay

/-- A change of registers, requests and counts, and of lines as far as they tell of events. -/
structure Edit where
  registers : RegisterMap UInt64 → RegisterMap UInt64
  requests : Array Request → Array Request
  lines : Array Line → Array Line
  count : Nat → Nat
  /-- A line that tells of no event is passed on. -/
  lines_push : ∀ log (l : Line), l.component ≠ .events → lines (log.push l) = (lines log).push l

/-- The edit of the registers alone. -/
def Edit.ofRegisters (m : RegisterMap UInt64) : Edit where
  registers _ := m
  requests := id
  lines := id
  count := id
  lines_push _ _ _ := rfl

def Recorder.edit (e : Edit) (d : Recorder) : Recorder :=
  { d with registers := e.registers d.registers, requests := e.requests d.requests, log := e.lines d.log }

def Progress.edit {α : Type} (e : Edit) (p : Progress α) : Progress α :=
  { p with window := e.count p.window, total := e.count p.total }

namespace Session

section Report

variable {α ε : Type}

def edit (e : Edit) (s : Session α ε Recorder) : Session α ε Recorder :=
  { s with debugger := s.debugger.edit e, progress := s.progress.edit e }

variable (e : Edit) (s : Session α ε Recorder)

theorem say_edit (component : Component) (h : component ≠ .events) (level : Level) (text : String) :
    (s.edit e).say level component text = (s.say level component text).edit e := by
  have hpush := e.lines_push s.debugger.log ⟨level, component, text⟩ h
  exact congrArg (fun log => { s.edit e with debugger := { s.debugger.edit e with log } }) hpush.symm

theorem inform_edit (component : Component) (h : component ≠ .events) (text : String) :
    (s.edit e).inform component text = (s.inform component text).edit e := by
  unfold inform
  rw [apply_ite (edit e), ← s.say_edit e component h]
  rfl

theorem detail_edit (component : Component) (h : component ≠ .events) (text : String) :
    (s.edit e).detail component text = (s.detail component text).edit e := by
  unfold detail
  rw [apply_ite (edit e), ← s.say_edit e component h]
  rfl

theorem abandon_edit (cause : TraceError) :
    (s.edit e).abandon cause = ((s.abandon cause).1.edit e, (s.abandon cause).2) :=
  congrArg (·, Outcome.abandoned cause) (s.say_edit e .tracing nofun _ _)

theorem paint_edit (pc : UInt64) : (s.edit e).paint pc = (s.paint pc).edit e := by
  unfold paint
  rw [apply_ite (edit e)]
  rfl

theorem commentControlled_edit (i : Instruction) : (s.edit e).commentControlled i = (s.commentControlled i).edit e := by
  unfold commentControlled
  dsimp only
  rw [apply_ite (edit e)]
  rfl

theorem renameFunction_edit (d : Recorder) (address : UInt64) (name : String) :
    Debugger.renameFunction (d.edit e) address name =
      ((Debugger.renameFunction d address name).1.edit e, (Debugger.renameFunction d address name).2) := by
  show (d.edit e).renameFunction address name =
    ((d.renameFunction address name).1.edit e, (d.renameFunction address name).2)
  unfold Recorder.renameFunction Recorder.edit
  dsimp only
  cases d.image.functionAt address <;> rfl

theorem tagFunction_edit (address : UInt64) : (s.edit e).tagFunction address = (s.tagFunction address).edit e := by
  have hname : Debugger.functionName (s.edit e).debugger address = Debugger.functionName s.debugger address := rfl
  have hrename (name : String) := renameFunction_edit e s.debugger address name
  have hdebugger : (s.edit e).debugger = s.debugger.edit e := rfl
  have hrenamed : (s.edit e).progress.renamed = s.progress.renamed := rfl
  unfold tagFunction
  rw [hname, hdebugger, hrenamed]
  cases Debugger.functionName s.debugger address with
  | none => rfl
  | some name =>
    dsimp only
    rw [apply_ite (edit e), hrename]
    congr 1
    generalize Debugger.renameFunction s.debugger address _ = renamed
    obtain ⟨debugger, found⟩ := renamed
    cases found with
    | false => rfl
    | true =>
      exact congrArg
        (fun s : Session α ε Recorder => { s with progress := { s.progress with renamed := s.progress.renamed + 1 } })
        (detail_edit e { s with debugger } .tracing nofun _)

theorem highlight_edit (i : Instruction) : (s.edit e).highlight i = (s.highlight i).edit e := by
  unfold highlight
  rw [apply_ite (edit e)]
  congr 1
  have hmarked : ({ s.edit e with progress := { (s.edit e).progress with marked := true } } : Session α ε Recorder) =
      edit e { s with progress := { s.progress with marked := true } } := rfl
  rw [hmarked]
  dsimp only
  rw [inform_edit e _ .tracing nofun, tagFunction_edit]
  generalize (Session.inform _ _ _ : Session α ε Recorder) = t
  have htagged : (if (t.edit e).options.renameTainted then (t.tagFunction i.address).edit e else t.edit e) =
      edit e (if t.options.renameTainted then t.tagFunction i.address else t) := by
    rw [apply_ite (edit e)]
    rfl
  rw [htagged]
  rfl

section Analyzer

variable [Analyzer ε]

theorem announce_edit (old new : ε) (d : Recorder) : announce old new (d.edit e) = (announce old new d).edit e := by
  unfold announce
  induction Analyzer.newTexts old new generalizing d with
  | nil => rfl
  | cons text texts ih =>
    have hsay : Debugger.say (d.edit e) ⟨.trace, .analysis, text⟩ =
        (Debugger.say d ⟨.trace, .analysis, text⟩).edit e :=
      congrArg (fun log => { d.edit e with log }) (e.lines_push d.log ⟨.trace, .analysis, text⟩ nofun).symm
    rw [List.foldl_cons, List.foldl_cons, hsay, ih]

theorem advance_edit (analysis : ε) : (s.edit e).advance analysis = (s.advance analysis).edit e :=
  congrArg (fun debugger => { s.edit e with analysis, debugger }) (announce_edit e s.analysis analysis s.debugger)

theorem commentExpressions_edit (i : Instruction) :
    (s.edit e).commentExpressions i = (s.commentExpressions i).edit e := by
  unfold commentExpressions
  dsimp only
  rw [apply_ite (edit e)]
  rfl

theorem recordBranch_edit (i : Instruction) :
    (s.edit e).recordBranch i = ((s.recordBranch i).1.edit e, (s.recordBranch i).2) := by
  unfold recordBranch
  cases i.successors with
  | none => exact congrArg (·, none) (s.say_edit e .tracing nofun _ _)
  | some successors =>
    dsimp only
    rw [inform_edit e _ .tracing nofun]
    generalize s.inform _ _ = t
    rw [show (t.edit e).analysis = t.analysis from rfl]
    cases Analyzer.pathSymbol t.analysis with
    | some symbol => rfl
    | none =>
      dsimp only
      rw [say_edit e _ .tracing nofun]
      rfl

theorem report_edit (i : Instruction) : (s.edit e).report i = ((s.report i).1.edit e, (s.report i).2) := by
  unfold report
  dsimp only
  rw [commentControlled_edit, commentExpressions_edit, highlight_edit, recordBranch_edit]
  split <;> rfl

end Analyzer

end Report

/-! ## Traces -/

section Trace

variable {α : Type} {e : Edit} {s : Session α Shadow Recorder}
  (he : (s.debugger.edit e).register = s.debugger.register)
include he

theorem trace_edit (pc thread : UInt64) :
    (s.edit e).trace pc thread = ((s.trace pc thread).1.edit e, (s.trace pc thread).2) := by
  cases harmed : s.progress.armed with
  | false =>
    rw [trace_dormant s pc thread harmed, trace_dormant (s.edit e) pc thread harmed]
  | true =>
    have hcurrent (i : Instruction) : (s.edit e).setCurrent i = (s.setCurrent i).edit e := rfl
    cases hd : X86.decode (s.debugger.codeAt pc) with
    | none =>
      rw [trace_of_not_decode harmed hd, trace_of_not_decode (s := s.edit e) harmed hd, hcurrent, abandon_edit]
    | some d =>
      have hregister : (s.edit e).debugger.register = s.debugger.register := he
      have hcode : (s.edit e).debugger.codeAt pc = s.debugger.codeAt pc := rfl
      have hanalysis : (s.edit e).analysis = s.analysis := rfl
      rw [trace_of_decode harmed hd, trace_of_decode (s := s.edit e) harmed hd, hregister, hcode, hanalysis]
      generalize s.analysis.step _ _ _ = stepped
      rw [hcurrent, inform_edit e _ .tracing nofun, advance_edit, report_edit]

theorem observe_edit (thread pc : UInt64) : (s.edit e).observe thread pc = (s.observe thread pc).edit e := by
  have hpaint : ((s.paint pc).debugger.edit e).register = (s.paint pc).debugger.register := by
    have hregisters : (s.paint pc).debugger.registers = s.debugger.registers :=
      congrArg Control.registers (s.control_paint pc)
    show (e.registers (s.paint pc).debugger.registers).get? = (s.paint pc).debugger.registers.get?
    rw [hregisters]
    exact he
  unfold observe
  rw [paint_edit, trace_edit hpaint]

end Trace

end Session

end TaintReplay
