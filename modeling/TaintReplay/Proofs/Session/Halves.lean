import TaintReplay.Debugger.Recorder
import TaintReplay.Session.Command
import TaintReplay.Session.Event

/-!
# The two halves of a session

Its log lines apart, a session has two halves. `Session.control` is what runs the process and talks with the user,
`Session.findings` is what has been found out about the process. A trace writes findings alone (`control_trace`), and
stepping on and asking the user write control alone (`exists_stepOn_eq`, `exists_askAtLimit_eq`). So what an executed
instruction does to the control is what is done around its trace (`exists_control_onStep_eq`,
`exists_control_onTrace_eq`). A trace never takes back that something was marked (`marked_trace`).
-/

namespace TaintReplay

/-- What runs the process and talks with the user. -/
structure Control (α : Type) where
  options : Options
  armed : Bool
  window : Nat
  total : Nat
  autoContinue : Bool
  declined : Bool
  pending : ActionQueue α
  image : Image
  registers : RegisterMap UInt64
  thread : UInt64
  breakpoints : Std.TreeSet UInt64
  answers : List Answer
  stepTracing : Bool
  requests : Array Request
  questions : Array String

/-- What has been found out about the process. -/
structure Findings (ε : Type) where
  analysis : ε
  marked : Bool
  renamed : Nat
  current : Option Instruction
  constraints : PathLog
  colors : Std.TreeMap UInt64 UInt32
  comments : Std.TreeMap UInt64 (List String)
  renames : Std.TreeMap UInt64 String

namespace Session

variable {α ε : Type}

def control (s : Session α ε Recorder) : Control α where
  options := s.options
  armed := s.progress.armed
  window := s.progress.window
  total := s.progress.total
  autoContinue := s.progress.autoContinue
  declined := s.progress.declined
  pending := s.progress.pending
  image := s.debugger.image
  registers := s.debugger.registers
  thread := s.debugger.thread
  breakpoints := s.debugger.breakpoints
  answers := s.debugger.answers
  stepTracing := s.debugger.stepTracing
  requests := s.debugger.requests
  questions := s.debugger.questions

def findings (s : Session α ε Recorder) : Findings ε where
  analysis := s.analysis
  marked := s.progress.marked
  renamed := s.progress.renamed
  current := s.progress.current
  constraints := s.progress.constraints
  colors := s.debugger.colors
  comments := s.debugger.comments
  renames := s.debugger.renames

theorem register_of_control {s t : Session α ε Recorder} (h : t.control = s.control) :
    t.debugger.register = s.debugger.register :=
  congrArg (fun c : Control α => c.registers.get?) h

variable (s : Session α ε Recorder)

/-! ## Lines -/

@[simp] theorem control_inform (component : Component) (text : String) :
    (s.inform component text).control = s.control := by
  unfold inform
  split <;> rfl

@[simp] theorem findings_inform (component : Component) (text : String) :
    (s.inform component text).findings = s.findings := by
  unfold inform
  split <;> rfl

@[simp] theorem control_detail (component : Component) (text : String) :
    (s.detail component text).control = s.control := by
  unfold detail
  split <;> rfl

/-! ## What a trace writes -/

@[simp] theorem control_setCurrent (i : Instruction) : (s.setCurrent i).control = s.control := rfl

@[simp] theorem control_abandon (cause : TraceError) : (s.abandon cause).1.control = s.control := rfl

@[simp] theorem control_commentControlled (i : Instruction) : (s.commentControlled i).control = s.control := by
  unfold commentControlled
  dsimp only
  split <;> rfl

/-- Giving a function its new name, if that happens at all, writes the names and counts them. -/
theorem tagFunction_cases (address : UInt64) : s.tagFunction address = s ∨ ∃ renames log renamed,
    s.tagFunction address =
      { s with debugger := { s.debugger with renames, log }, progress := { s.progress with renamed } } := by
  unfold tagFunction
  cases hf : s.debugger.image.functionAt address with
  | none =>
    have hname : Debugger.functionName s.debugger address = none := by
      show (s.debugger.image.functionAt address).map _ = none
      rw [hf]
      rfl
    rw [hname]
    exact .inl rfl
  | some f =>
    have hname : Debugger.functionName s.debugger address = some (s.debugger.renames.getD f.start f.name) := by
      show (s.debugger.image.functionAt address).map _ = _
      rw [hf]
      rfl
    have hrename (name : String) : Debugger.renameFunction s.debugger address name =
        ({ s.debugger with renames := s.debugger.renames.insert f.start name }, true) := by
      show s.debugger.renameFunction address name = _
      simp only [Recorder.renameFunction, hf]
    rw [hname]
    dsimp only
    split
    · exact .inl rfl
    · rw [hrename]
      dsimp only [detail]
      split
      · exact .inr ⟨_, _, _, rfl⟩
      · exact .inr ⟨_, _, _, rfl⟩

@[simp] theorem control_tagFunction (address : UInt64) : (s.tagFunction address).control = s.control := by
  obtain h | ⟨_, _, _, h⟩ := s.tagFunction_cases address <;> rw [h]
  rfl

@[simp] theorem marked_tagFunction (address : UInt64) :
    (s.tagFunction address).progress.marked = s.progress.marked := by
  obtain h | ⟨_, _, _, h⟩ := s.tagFunction_cases address <;> rw [h]

@[simp] theorem control_highlight (i : Instruction) : (s.highlight i).control = s.control := by
  unfold highlight
  split
  · dsimp only
    generalize ht : (Session.inform _ _ _ : Session α ε Recorder) = t
    have hcontrol : t.control = s.control := by
      rw [← ht]
      exact control_inform _ _ _
    split
    · exact (t.control_tagFunction i.address).trans hcontrol
    · exact hcontrol
  · rfl

/-- An instruction that is tainted or symbolic is marked. -/
theorem marked_highlight (i : Instruction) :
    (s.highlight i).progress.marked = (s.progress.marked || (i.tainted || i.symbolized)) := by
  unfold highlight
  split
  · rename_i hmarks
    rw [hmarks, Bool.or_true]
    dsimp only
    generalize ht : (Session.inform _ _ _ : Session α ε Recorder) = t
    have hmarked : t.progress.marked = true := by
      rw [← ht]
      exact congrArg Findings.marked (findings_inform _ _ _)
    split
    · exact (t.marked_tagFunction i.address).trans hmarked
    · exact hmarked
  · rename_i hmarks
    rw [eq_false_of_ne_true hmarks, Bool.or_false]

section Analyzer

variable [Analyzer ε]

/-- Writing down new expressions writes lines and nothing else. -/
theorem announce_eq (old new : ε) (d : Recorder) : announce old new d = { d with log := (announce old new d).log } := by
  unfold announce
  induction Analyzer.newTexts old new generalizing d with
  | nil => rfl
  | cons text texts ih =>
    rw [List.foldl_cons, ih]
    rfl

@[simp] theorem control_advance (analysis : ε) : (s.advance analysis).control = s.control := by
  unfold advance
  rw [announce_eq]
  rfl

@[simp] theorem findings_advance (analysis : ε) : (s.advance analysis).findings = { s.findings with analysis } := by
  unfold advance
  rw [announce_eq]
  rfl

@[simp] theorem control_commentExpressions (i : Instruction) : (s.commentExpressions i).control = s.control := by
  unfold commentExpressions
  dsimp only
  split <;> rfl

@[simp] theorem control_recordBranch (i : Instruction) : (s.recordBranch i).1.control = s.control := by
  unfold recordBranch
  split
  · rfl
  · dsimp only
    split
    · exact control_inform _ _ _
    · exact control_inform _ _ _

@[simp] theorem marked_recordBranch (i : Instruction) :
    (s.recordBranch i).1.progress.marked = s.progress.marked := by
  unfold recordBranch
  split
  · rfl
  · dsimp only
    split
    · exact congrArg Findings.marked (findings_inform _ _ _)
    · exact congrArg Findings.marked (findings_inform _ _ _)

@[simp] theorem control_report (i : Instruction) : (s.report i).1.control = s.control := by
  unfold report
  dsimp only
  split <;> simp

/-- A report marks the session if its instruction is tainted or symbolic. -/
theorem marked_report (i : Instruction) :
    (s.report i).1.progress.marked = (s.progress.marked || (i.tainted || i.symbolized)) := by
  have hcomments : ((s.commentControlled i).commentExpressions i).progress.marked = s.progress.marked := by
    unfold commentExpressions commentControlled
    dsimp only
    split <;> split <;> rfl
  have hhighlight := ((s.commentControlled i).commentExpressions i).marked_highlight i.trust
  rw [hcomments] at hhighlight
  unfold report
  dsimp only
  split
  · exact (marked_recordBranch _ _).trans hhighlight
  · exact hhighlight

/-- A trace leaves alone what runs the process and talks with the user. -/
@[simp] theorem control_trace (pc thread : UInt64) : (s.trace pc thread).1.control = s.control := by
  unfold trace
  split
  · dsimp only
    split
    · rfl
    · split
      · rfl
      · split <;> simp
  · rfl

/-- A trace does not take back that something was marked. -/
theorem marked_trace (pc thread : UInt64) (h : s.progress.marked = true) :
    (s.trace pc thread).1.progress.marked = true := by
  unfold trace
  split
  · dsimp only
    split
    · exact h
    · split
      · exact h
      · generalize ht : (Session.inform _ _ _ : Session α ε Recorder) = t
        have hmarked : t.progress.marked = true := by
          rw [← ht]
          exact (congrArg Findings.marked (findings_inform _ _ _)).trans h
        split
        · exact hmarked
        · rw [marked_report, advance, hmarked]
          rfl
  · exact h

end Analyzer

/-! ## What happens around a trace -/

theorem control_paint (pc : UInt64) : (s.paint pc).control = s.control := by
  unfold paint
  split <;> rfl

/-- Giving registers their values writes registers. -/
theorem exists_foldl_setRegister_eq (values : List (String × UInt64)) (d : Recorder) :
    ∃ registers, values.foldl (fun d (name, value) => d.setRegister name value) d = { d with registers } := by
  induction values generalizing d with
  | nil => exact ⟨_, rfl⟩
  | cons value values ih => exact ih (d.setRegister value.1 value.2)

/-- Stepping on writes lines and requests. -/
theorem exists_stepOn_eq : ∃ log requests, s.stepOn = { s with debugger := { s.debugger with log, requests } } := by
  unfold stepOn
  split
  · split
    · exact ⟨_, _, rfl⟩
    · split
      · exact ⟨_, _, rfl⟩
      · exact ⟨_, _, rfl⟩
  · exact ⟨_, _, rfl⟩

/-- A question is written down, and takes the first answer that waits. -/
theorem exists_ask_eq (d : Recorder) (text : String) : ∃ log, d.ask text =
    ({ d with log, answers := d.answers.tail, questions := d.questions.push text }, d.answers.headD .yes) := by
  refine ⟨(d.say ⟨.debug, .debugger, text⟩).log, ?_⟩
  have hsay : (d.say ⟨.debug, .debugger, text⟩).answers = d.answers := rfl
  obtain ⟨image, registers, thread, breakpoints, answers, _⟩ := d
  cases answers with
  | nil => rfl
  | cons a answers => rfl

/-- Asking at the end of a window writes what is said and asked, and what follows from the answer. -/
theorem exists_askAtLimit_eq (limit : Nat) : ∃ log questions answers requests stepTracing window declined,
    s.askAtLimit limit =
      { s with
        debugger := { s.debugger with log, questions, answers, requests, stepTracing }
        progress := { s.progress with window, declined } } := by
  unfold askAtLimit
  split
  · generalize toString s.progress.total = total
    obtain ⟨_, hask⟩ := exists_ask_eq s.debugger
      ("[?] " ++ total ++ " instructions has been traced. Do you want to execute " ++ toString limit ++ " more?")
    dsimp only
    split
    · rename_i debugger heq
      obtain ⟨rfl, -⟩ := Prod.mk.inj (heq.symm.trans hask)
      exact ⟨_, _, _, _, _, _, _, rfl⟩
    · rename_i debugger _ _ heq
      obtain ⟨rfl, -⟩ := Prod.mk.inj (heq.symm.trans hask)
      exact ⟨_, _, _, _, _, _, _, rfl⟩
  · exact ⟨_, _, _, _, _, _, _, rfl⟩

/-! ## Events and commands -/

section Analyzer

variable [Analyzer ε]

theorem control_observe (thread pc : UInt64) : (s.observe thread pc).control = s.control := by
  rw [observe, control_trace, control_paint]

theorem control_reanalyze : s.reanalyze.1.control = s.control := by
  unfold reanalyze
  split
  · rfl
  · rw [control_trace, control_inform]

/-- A step writes requests. -/
theorem exists_control_onStep_eq (thread pc : UInt64) (into : Bool) :
    ∃ requests, (s.onStep thread pc into).control = { s.control with requests } := by
  have hstepOn {t : Session α ε Recorder} (h : t.control = s.control) :
      ∃ requests, t.stepOn.control = { s.control with requests } := by
    obtain ⟨_, requests, hstep⟩ := t.exists_stepOn_eq
    rw [hstep, ← h]
    exact ⟨requests, rfl⟩
  unfold onStep
  split
  · exact hstepOn rfl
  · split
    · exact hstepOn rfl
    · exact hstepOn ((control_observe _ thread pc).trans (control_detail _ _ _))

/-- An executed instruction writes the counters, and what is asked and follows from the answer. -/
theorem exists_control_onTrace_eq (thread pc : UInt64) :
    ∃ window total declined answers stepTracing requests questions, (s.onTrace thread pc).control =
      { s.control with window, total, declined, answers, stepTracing, requests, questions } := by
  have hobserve := s.control_observe thread pc
  unfold onTrace
  split
  · exact ⟨_, _, _, _, _, _, _, rfl⟩
  · dsimp only
    rw [← hobserve]
    split
    · obtain ⟨_, _, _, _, _, _, _, hask⟩ := exists_askAtLimit_eq _ _
      rw [hask]
      exact ⟨_, _, _, _, _, _, _, rfl⟩
    · exact ⟨_, _, _, _, _, _, _, rfl⟩

end Analyzer

end Session

end TaintReplay
