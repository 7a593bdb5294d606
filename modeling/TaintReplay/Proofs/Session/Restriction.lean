import TaintReplay.Proofs.Analysis.Restriction
import TaintReplay.Proofs.Session.Fetch
import TaintReplay.Proofs.Session.Halves

/-!
# Sessions without their reports

`Session.restrict` is a session as some sides of the analysis have it, without what is only reported to the user: lines,
colours, comments and names, and the options that ask for them. Two sessions are `Alike` if they do not differ in this.
They stay so whatever a session does (`Alike.trace`, `Alike.stepOn`, `Alike.askAtLimit`), since a trace of a session
that is marked changes no more than its analysis, its current instruction and its log of constraints
(`restrict_report`).
-/

namespace TaintReplay

/-- The options, with nothing reported and the sides that are not looked at off. -/
def Options.restrict (o : Options) (v : Sides) : Options :=
  { o with
    showInfo := false
    showDetail := false
    paintExecuted := false
    commentControlled := false
    commentExpressions := false
    renameTainted := false
    useTaint := o.useTaint && v.taint
    useSymbols := o.useSymbols && v.symbols
    colorTainted := 0
    colorCondition := 0
    colorExecuted := 0 }

/-- The debugger, with nothing reported. -/
def Recorder.unreported (d : Recorder) : Recorder := { d with colors := {}, comments := {}, renames := {}, log := #[] }

/-- The progress, with nothing from the sides that are not looked at, and no functions renamed. -/
def Progress.restrict {α : Type} (p : Progress α) (v : Sides) : Progress α :=
  { p with
    renamed := 0
    current := p.current.map (·.restrict v)
    constraints := if v.symbols then p.constraints else [] }

namespace Session

variable {α : Type}

/-- The session, with nothing reported and nothing from the sides that are not looked at. -/
def restrict (s : Session α Shadow Recorder) (v : Sides) : Session α Shadow Recorder where
  options := s.options.restrict v
  analysis := s.analysis.restrict v
  debugger := s.debugger.unreported
  progress := s.progress.restrict v

section Restrict

variable (s : Session α Shadow Recorder) (v : Sides)

/-- What is reported is no part of the control, and of the findings no part of the rest. -/
theorem restrict_congr {s t : Session α Shadow Recorder} (hcontrol : s.control = t.control)
    (hanalysis : s.analysis = t.analysis) (hmarked : s.progress.marked = t.progress.marked)
    (hcurrent : s.progress.current = t.progress.current)
    (hconstraints : s.progress.constraints = t.progress.constraints) (v : Sides) : s.restrict v = t.restrict v := by
  simp only [control, Control.mk.injEq] at hcontrol
  simp only [restrict, Recorder.unreported, Progress.restrict, hcontrol, hanalysis, hmarked, hcurrent, hconstraints]

@[simp] theorem restrict_inform (component : Component) (text : String) :
    (s.inform component text).restrict v = s.restrict v := by
  unfold inform
  split <;> rfl

@[simp] theorem restrict_detail (component : Component) (text : String) :
    (s.detail component text).restrict v = s.restrict v := by
  unfold detail
  split <;> rfl

@[simp] theorem restrict_paint (pc : UInt64) : (s.paint pc).restrict v = s.restrict v := by
  unfold paint
  split <;> rfl

/-- Taking over a state of the analysis writes down its new expressions, which is no more than a report. -/
theorem restrict_advance (analysis : Shadow) :
    (s.advance analysis).restrict v = { s.restrict v with analysis := analysis.restrict v } := by
  unfold advance
  rw [announce_eq]
  rfl

/-! ### Reports -/

/-- The session with what a report of an instruction leaves behind, lines, colours, comments and names apart. -/
def settle (i : Instruction) : Session α Shadow Recorder :=
  { s with
    progress := { s.progress with
      current := some i.trust
      constraints := s.progress.constraints ++ (reportedConstraint s.analysis i).toList } }

/-- All that a report does to a session that is marked is to settle the instruction. -/
theorem restrict_report (i : Instruction) (h : s.progress.marked = true) :
    (s.report i).1.restrict v = (s.settle i).restrict v := by
  have hlogs := s.logs_report i
  have hmarked : (s.report i).1.progress.marked = s.progress.marked := by
    rw [marked_report, h]
    rfl
  exact restrict_congr (t := s.settle i) (s.control_report i) hlogs.analysis hmarked rfl hlogs.constraints v

/-- The constraint of a branch has nothing from taint. -/
theorem reportedConstraint_restrict (analysis : Shadow) (i : Instruction) :
    reportedConstraint (analysis.restrict v) (i.restrict v) =
      if v.symbols then reportedConstraint analysis i else none := by
  cases hv : v.symbols with
  | true =>
    have hsymbol : Analyzer.pathSymbol (analysis.restrict v) = Analyzer.pathSymbol analysis := by
      show (analysis.restrict v).symbols.get? _ = analysis.symbols.get? _
      simp [Shadow.restrict, hv]
    have hsymbolized : (i.restrict v).symbolized = i.symbolized := by simp [Instruction.restrict, hv]
    have hbranch : (i.restrict v).branch = i.branch := rfl
    unfold reportedConstraint constraintOf
    rw [hsymbol, hsymbolized, hbranch]
    rfl
  | false => simp [reportedConstraint, Instruction.restrict, hv]

theorem restrict_settle (i : Instruction) : (s.settle i).restrict v = (s.restrict v).settle (i.restrict v) := by
  have hconstraint := reportedConstraint_restrict v s.analysis i
  have htrust : i.trust.restrict v = (i.restrict v).trust := by simp [Instruction.trust, Instruction.restrict]
  unfold settle restrict Progress.restrict
  rw [hconstraint]
  cases v.symbols <;> simp [htrust]

end Restrict

/-! ## Sessions that are alike -/

/-- The sessions do not differ in what the sides that are looked at have found, nor in anything else that is not
reported only. An armed session is marked. -/
structure Alike (v : Sides) (s t : Session α Shadow Recorder) : Prop where
  restrict : s.restrict v = t.restrict v
  marked : s.progress.armed = true → s.progress.marked = true

namespace Alike

variable {v : Sides} {s t : Session α Shadow Recorder} (h : s.Alike v t)
include h

theorem say {level level' : Level} {component component' : Component} {text text' : String} :
    (s.say level component text).Alike v (t.say level' component' text') := ⟨h.restrict, h.marked⟩

theorem inform (component : Component) (text : String) :
    (s.inform component text).Alike v (t.inform component text) := by
  refine ⟨by rw [restrict_inform, restrict_inform, h.restrict], ?_⟩
  unfold Session.inform
  split
  · exact h.marked
  · exact h.marked

theorem detail (component : Component) (text : String) :
    (s.detail component text).Alike v (t.detail component text) := by
  refine ⟨by rw [restrict_detail, restrict_detail, h.restrict], ?_⟩
  unfold Session.detail
  split
  · exact h.marked
  · exact h.marked

theorem paint (pc : UInt64) : (s.paint pc).Alike v (t.paint pc) := by
  refine ⟨by rw [restrict_paint, restrict_paint, h.restrict], ?_⟩
  unfold Session.paint
  split
  · exact h.marked
  · exact h.marked

theorem request (q : Request) : (s.request q).Alike v (t.request q) :=
  ⟨congrArg (Session.request · q) h.restrict, h.marked⟩

theorem setAutoContinue (on : Bool) : (s.setAutoContinue on).Alike v (t.setAutoContinue on) :=
  ⟨congrArg (Session.setAutoContinue · on) h.restrict, h.marked⟩

/-- What is done to the debugger may depend on what is not reported only. -/
theorem debug (f : Recorder → Recorder) (hf : ∀ d, (f d).unreported = f d.unreported) :
    Session.Alike v { s with debugger := f s.debugger } { t with debugger := f t.debugger } := by
  refine ⟨?_, h.marked⟩
  unfold Session.restrict
  dsimp only
  rw [hf, hf]
  exact congrArg (fun r : Session α Shadow Recorder => { r with debugger := f r.debugger }) h.restrict

/-- What is written to the progress may depend on what is not reported only. -/
theorem count (f : Progress α → Progress α) (hrestrict : ∀ p, (f p).restrict v = f (p.restrict v))
    (hmarked : (f s.progress).armed = true → (f s.progress).marked = true) :
    Session.Alike v { s with progress := f s.progress } { t with progress := f t.progress } := by
  refine ⟨?_, hmarked⟩
  unfold Session.restrict
  dsimp only
  rw [hrestrict, hrestrict]
  exact congrArg (fun r : Session α Shadow Recorder => { r with progress := f r.progress }) h.restrict

theorem setCurrent {i j : Instruction} (hi : i.restrict v = j.restrict v) :
    (s.setCurrent i).Alike v (t.setCurrent j) := by
  refine ⟨?_, h.marked⟩
  show (s.restrict v).setCurrent (i.restrict v) = (t.restrict v).setCurrent (j.restrict v)
  rw [h.restrict, hi]

theorem advance {a b : Shadow} (ha : a.restrict v = b.restrict v) : (s.advance a).Alike v (t.advance b) :=
  ⟨by rw [restrict_advance, restrict_advance, h.restrict, ha], h.marked⟩

/-- A new source marks what it arms. -/
theorem arm : s.arm.Alike v t.arm := ⟨congrArg Session.arm h.restrict, fun _ => rfl⟩

/-! ### Traces -/

theorem analysis : s.analysis.restrict v = t.analysis.restrict v := congrArg Session.analysis h.restrict

theorem codeAt (pc : UInt64) : s.debugger.codeAt pc = t.debugger.codeAt pc :=
  congrArg (fun r => r.debugger.codeAt pc) h.restrict

theorem register : s.debugger.register = t.debugger.register := congrArg (fun r => r.debugger.register) h.restrict

theorem armed : s.progress.armed = t.progress.armed := congrArg (fun r => r.progress.armed) h.restrict

theorem current : s.progress.current.map (·.restrict v) = t.progress.current.map (·.restrict v) :=
  congrArg (fun r => r.progress.current) h.restrict

theorem map_current {β : Type} (f : Instruction → β) (hf : ∀ i, f (i.restrict v) = f i) :
    s.progress.current.map f = t.progress.current.map f := by
  have hcurrent := congrArg (Option.map f) h.current
  rw [Option.map_map, Option.map_map, show f ∘ (·.restrict v) = f from funext hf] at hcurrent
  exact hcurrent

/-- Both sessions have a current instruction or neither has, and the two records have the same place and text. -/
theorem current_cases : s.progress.current = none ∧ t.progress.current = none ∨
    ∃ i j, s.progress.current = some i ∧ t.progress.current = some j ∧ i.address = j.address ∧ i.text = j.text := by
  have hcurrent := h.current
  cases hs : s.progress.current with
  | none =>
    rw [hs, Option.map_none, Eq.comm, Option.map_eq_none_iff] at hcurrent
    exact .inl ⟨rfl, hcurrent⟩
  | some i =>
    rw [hs, Option.map_some, Eq.comm, Option.map_eq_some_iff] at hcurrent
    obtain ⟨j, ht, hji⟩ := hcurrent
    have haddress : (j.restrict v).address = (i.restrict v).address := congrArg Instruction.address hji
    have htext : (j.restrict v).text = (i.restrict v).text := congrArg Instruction.text hji
    exact .inr ⟨i, j, rfl, ht, haddress.symm, htext.symm⟩

theorem report {i j : Instruction} (hs : s.progress.marked = true) (hi : i.restrict v = j.restrict v) :
    (s.report i).1.Alike v (t.report j).1 := by
  have ht : t.progress.marked = true := (congrArg (fun r => r.progress.marked) h.restrict).symm.trans hs
  refine ⟨?_, fun _ => ?_⟩
  · rw [restrict_report s v i hs, restrict_report t v j ht, restrict_settle, restrict_settle, h.restrict, hi]
  · rw [marked_report, hs]
    rfl

/-- The trace of an instruction does to the sides that are looked at what they alone decide. -/
theorem trace (pc thread : UInt64) : (s.trace pc thread).1.Alike v (t.trace pc thread).1 := by
  have harmed := h.armed
  have hcode := h.codeAt pc
  cases hs : s.progress.armed with
  | false =>
    rw [trace_dormant s pc thread hs, trace_dormant t pc thread (harmed ▸ hs)]
    exact h
  | true =>
    have hfetched : Session.Alike v (s.setCurrent { address := pc, thread }) (t.setCurrent { address := pc, thread }) :=
      h.setCurrent rfl
    cases hd : X86.decode (s.debugger.codeAt pc) with
    | none =>
      rw [trace_of_not_decode hs hd, trace_of_not_decode (harmed ▸ hs) (hcode ▸ hd)]
      exact hfetched.say
    | some d =>
      rw [trace_of_decode hs hd, trace_of_decode (harmed ▸ hs) (hcode ▸ hd), ← hcode, ← h.register]
      generalize recordOf d (s.debugger.codeAt pc) pc thread = i
      have hsteps := (s.analysis.step_restrict v d i s.debugger.register).symm.trans
        ((congrArg (·.step d i s.debugger.register) h.analysis).trans (t.analysis.step_restrict v d i _))
      obtain ⟨hanalysis, hrecord⟩ := Prod.mk.inj hsteps
      have hadvanced := (hfetched.inform .tracing ("[+] Tracing " ++ i.render)).advance hanalysis
      refine hadvanced.report ?_ hrecord
      exact (congrArg Findings.marked (findings_inform _ _ _)).trans (h.marked hs)

theorem observe (thread pc : UInt64) : (s.observe thread pc).Alike v (t.observe thread pc) :=
  (h.paint pc).trace pc thread

/-! ### Around a trace -/

/-- Which step is asked for depends on the text of the current instruction, which every side has. -/
theorem stepOn : s.stepOn.Alike v t.stepOn := by
  have hauto : s.progress.autoContinue = t.progress.autoContinue :=
    congrArg (fun r => r.progress.autoContinue) h.restrict
  have hswitch : s.options.modeSwitch = t.options.modeSwitch := congrArg (fun r => r.options.modeSwitch) h.restrict
  unfold Session.stepOn atModeSwitch
  rw [← hauto, ← hswitch]
  split
  · rcases h.current_cases with ⟨hs, ht⟩ | ⟨i, j, hs, ht, -, htext⟩
    · rw [hs, ht]
      exact h.say.request _
    · rw [hs, ht]
      dsimp only
      rw [htext]
      split
      · exact h.say.request _
      · exact h.request _
  · exact h

/-- A question gets the same answer. -/
theorem ask (question : String) : (s.debugger.ask question).2 = (t.debugger.ask question).2 ∧
    Session.Alike v { s with debugger := (s.debugger.ask question).1 }
      { t with debugger := (t.debugger.ask question).1 } := by
  have hanswers : s.debugger.answers = t.debugger.answers := congrArg (fun r => r.debugger.answers) h.restrict
  obtain ⟨_, hs⟩ := exists_ask_eq s.debugger question
  obtain ⟨_, ht⟩ := exists_ask_eq t.debugger question
  rw [hs, ht]
  refine ⟨congrArg (·.headD .yes) hanswers, ?_, h.marked⟩
  exact congrArg (fun r : Session α Shadow Recorder => { r with debugger := { r.debugger with
    answers := r.debugger.answers.tail, questions := r.debugger.questions.push question } }) h.restrict

/-- Whether a question is asked, and which, depends on counters alone. -/
theorem askAtLimit (limit : Nat) : (s.askAtLimit limit).Alike v (t.askAtLimit limit) := by
  have hwindow : s.progress.window = t.progress.window := congrArg (fun r => r.progress.window) h.restrict
  have htotal : s.progress.total = t.progress.total := congrArg (fun r => r.progress.total) h.restrict
  unfold Session.askAtLimit
  rw [← hwindow, ← htotal]
  split
  · generalize "[?] " ++ toString s.progress.total ++ " instructions has been traced. Do you want to execute " ++
      toString limit ++ " more?" = question
    obtain ⟨hanswer, hasked⟩ := h.ask question
    dsimp only [Debugger.ask]
    generalize s.debugger.ask question = sreply at hanswer hasked
    generalize t.debugger.ask question = treply at hanswer hasked
    obtain ⟨sdebugger, answer⟩ := sreply
    obtain ⟨tdebugger, _⟩ := treply
    subst hanswer
    have hsuspended := ((hasked.request .disableStepTrace).request .suspend).count
      (fun p => { p with declined := true }) (fun _ => rfl) h.marked
    cases answer with
    | yes => exact hasked.count (fun p => { p with window := 0 }) (fun _ => rfl) h.marked
    | no => exact hsuspended.say
    | cancel => exact hsuspended.say
  · exact h

end Alike

end Session

end TaintReplay
