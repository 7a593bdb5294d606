import TaintReplay.Proofs.Replay.Drive
import TaintReplay.Proofs.Session.Restriction

/-!
# What does not depend on what

Two replays that are alike stay so with every step (`Session.Alike.apply`), and they are alike at the start if their
options differ only in what is reported and in the sides that are not looked at. So neither side of the analysis depends
on whether the other is on, and requests, questions and breakpoints depend on neither (`sides_independent`). What is
reported changes nothing but lines, colours, comments and names (`reports_observational`).
-/

namespace TaintReplay

open Text

theorem Shadow.fresh_restrict (o : Options) (v : Sides) : (Shadow.fresh o).restrict v = .fresh (o.restrict v) := by
  simp [Shadow.fresh, Shadow.restrict, Options.restrict]

theorem Replay.unreported_announceStart (options : Options) (debugger : Recorder) :
    (announceStart options debugger).unreported = debugger.unreported.request .clearRequests := by
  obtain ⟨_, hstart⟩ := exists_announceStart_eq options debugger
  rw [hstart]
  rfl

namespace Session.Alike

variable {v : Sides} {r t : Replay} (h : r.Alike v t)
include h

/-! ## Sources -/

/-- A register is made a source in both sessions, or in neither. -/
theorem taintRegister_cases (name : String) :
    (∃ a b, r.analysis.taintRegister name = .ok a ∧ t.analysis.taintRegister name = .ok b ∧
      a.restrict v = b.restrict v) ∨
    ∃ cause, r.analysis.taintRegister name = .error cause ∧ t.analysis.taintRegister name = .error cause := by
  have hmap := (r.analysis.taintRegister_restrict v name).symm.trans
    ((congrArg (·.taintRegister name) h.analysis).trans (t.analysis.taintRegister_restrict v name))
  cases hr : r.analysis.taintRegister name with
  | ok a =>
    cases ht : t.analysis.taintRegister name with
    | ok b =>
      rw [hr, ht] at hmap
      exact .inl ⟨a, b, rfl, rfl, Except.ok.inj hmap⟩
    | error cause =>
      rw [hr, ht] at hmap
      cases hmap
  | error cause =>
    cases ht : t.analysis.taintRegister name with
    | ok b =>
      rw [hr, ht] at hmap
      cases hmap
    | error cause' =>
      rw [hr, ht] at hmap
      exact .inr ⟨cause, rfl, congrArg Except.error (Except.error.inj hmap).symm⟩

theorem fire (a : PendingAction RegisterSource) (pc : UInt64) : (r.fire a pc).1.Alike v (t.fire a pc).1 := by
  have hcases := h.taintRegister_cases a.action.register
  unfold Session.fire
  dsimp only [Action.fire, Analyzer.taintRegister]
  generalize r.analysis.taintRegister a.action.register = x at hcases ⊢
  generalize t.analysis.taintRegister a.action.register = y at hcases ⊢
  rcases hcases with ⟨_, _, rfl, rfl, hanalysis⟩ | ⟨_, rfl, rfl⟩
  · exact (h.advance hanalysis).say.arm
  · exact h.say

theorem reanalyze : r.reanalyze.1.Alike v t.reanalyze.1 := by
  have hcounter : Debugger.register r.debugger .counter = Debugger.register t.debugger .counter :=
    congrFun h.register _
  unfold Session.reanalyze
  rw [← hcounter]
  cases Debugger.register r.debugger .counter with
  | none => exact h.say
  | some pc =>
    have hinformed := h.inform .events ("[+] Reanalyzing instruction at " ++ address pc.toNat)
    dsimp only
    generalize r.inform .events _ = s at hinformed ⊢
    generalize t.inform .events _ = u at hinformed ⊢
    have hthread : Debugger.currentThread s.debugger = Debugger.currentThread u.debugger :=
      congrArg (fun r => r.debugger.thread) hinformed.restrict
    rw [hthread]
    exact hinformed.trace pc _

/-! ## Events -/

theorem stoppedAt (e : Event) : (r.stoppedAt e).Alike v (t.stoppedAt e) := by
  unfold Replay.stoppedAt
  split
  · exact h.debug (·.stopAt _ _) fun _ => rfl
  · exact h

theorem onProcessStart : r.onProcessStart.Alike v t.onProcessStart := by
  have hoptions : r.options.restrict v = t.options.restrict v := congrArg Session.options h.restrict
  have hdebugger : r.debugger.unreported = t.debugger.unreported := congrArg Session.debugger h.restrict
  rw [Replay.onProcessStart_eq, Replay.onProcessStart_eq]
  refine ⟨?_, fun harmed => nomatch harmed⟩
  unfold Session.restrict Replay.restarted
  dsimp only
  rw [Shadow.fresh_restrict, Shadow.fresh_restrict, Replay.unreported_announceStart, Replay.unreported_announceStart,
    hoptions, hdebugger]

theorem onProcessExit : r.onProcessExit.Alike v t.onProcessExit :=
  (h.inform .events "[!] Process exiting...").count (fun p => { p with armed := false }) (fun _ => rfl)
    fun harmed => nomatch harmed

theorem onStep (thread pc : UInt64) (into : Bool) : (r.onStep thread pc into).Alike v (t.onStep thread pc into) := by
  unfold Session.onStep
  rcases h.current_cases with ⟨hr, ht⟩ | ⟨i, j, hr, ht, haddress, -⟩
  · rw [hr, ht]
    exact h.stepOn
  · rw [hr, ht]
    dsimp only
    rw [haddress]
    split
    · exact h.stepOn
    · exact ((h.detail .events _).observe thread pc).stepOn

theorem onTrace (thread pc : UInt64) : (r.onTrace thread pc).Alike v (t.onTrace thread pc) := by
  have hdeclined : r.progress.declined = t.progress.declined := congrArg (fun r => r.progress.declined) h.restrict
  have hobserved := h.observe thread pc
  have hwindow : (r.observe thread pc).options.window? = (t.observe thread pc).options.window? :=
    congrArg (fun r => r.options.window?) hobserved.restrict
  unfold Session.onTrace
  rw [← hdeclined]
  split
  · exact h.say
  · have hcounted := hobserved.count (fun p => { p with window := p.window + 1, total := p.total + 1 }) (fun _ => rfl)
      hobserved.marked
    dsimp only
    rw [← hwindow]
    split
    · exact hcounted.askAtLimit _
    · exact hcounted

theorem onBreakpoint (thread pc : UInt64) : (r.onBreakpoint thread pc).Alike v (t.onBreakpoint thread pc) := by
  have hpending : r.progress.pending = t.progress.pending := congrArg (fun r => r.progress.pending) h.restrict
  unfold Session.onBreakpoint
  rw [← hpending]
  cases r.progress.pending.take? pc with
  | none => exact h.setAutoContinue false
  | some taken =>
    obtain ⟨a, pending⟩ := taken
    have htaken := h.count (fun p => { p with pending }) (fun _ => rfl) h.marked
    have hobserved := (htaken.fire a pc).observe thread pc
    dsimp only
    rw [(Replay.exists_control_fire_eq _ a pc).2, (Replay.exists_control_fire_eq _ a pc).2]
    split
    · exact hobserved.count (fun p => { p with pending := p.pending.putBack a, autoContinue := false }) (fun _ => rfl)
        hobserved.marked
    · have hremoved := hobserved.debug (Debugger.removeBreakpoint · pc) fun _ => rfl
      have hsteps := congrArg (fun r => r.options.stepAfterAction) hobserved.restrict
      change (Session.observe _ thread pc).options.stepAfterAction =
        (Session.observe _ thread pc).options.stepAfterAction at hsteps
      rw [← hsteps]
      split
      · exact ((hremoved.setAutoContinue true).request .stepInto).request .runRequests
      · exact hremoved.request .resume

theorem handle (e : Event) : (r.handle e).Alike v (t.handle e) := by
  cases e with
  | processStart => exact h.onProcessStart
  | processExit => exact h.onProcessExit
  | stepInto thread pc => exact h.onStep thread pc true
  | stepOver thread pc => exact h.onStep thread pc false
  | trace thread pc => exact h.onTrace thread pc
  | breakpoint thread pc => exact h.onBreakpoint thread pc

/-! ## Steps -/

theorem breakAndRun (pc : UInt64) (action : RegisterSource) :
    (r.breakAndRun pc action).Alike v (t.breakAndRun pc action) := by
  have hbreaks : Debugger.hasBreakpoint r.debugger pc = Debugger.hasBreakpoint t.debugger pc :=
    congrArg (fun r => r.debugger.hasBreakpoint pc) h.restrict
  unfold Session.breakAndRun
  rw [← hbreaks]
  cases Debugger.hasBreakpoint r.debugger pc with
  | true => exact h.count (fun p => { p with pending := p.pending.register ⟨pc, action, true⟩ }) (fun _ => rfl) h.marked
  | false =>
    exact (h.debug (·.addBreakpoint pc) fun _ => rfl).count
      (fun p => { p with pending := p.pending.register ⟨pc, action, false⟩ }) (fun _ => rfl) h.marked

theorem taintRegister_apply (name : String) :
    (r.apply (.taintRegister name)).Alike v (t.apply (.taintRegister name)) := by
  have hcases := h.taintRegister_cases name
  unfold Replay.apply Session.taintRegister
  dsimp only [Analyzer.taintRegister]
  generalize r.analysis.taintRegister name = x at hcases ⊢
  generalize t.analysis.taintRegister name = y at hcases ⊢
  rcases hcases with ⟨_, _, rfl, rfl, hanalysis⟩ | ⟨_, rfl, rfl⟩
  · exact (h.advance hanalysis).arm.reanalyze
  · exact h.say

theorem write (start : UInt64) (bytes : List UInt8) :
    (r.apply (.write start bytes)).Alike v (t.apply (.write start bytes)) := by
  have himage : r.debugger.image = t.debugger.image := congrArg (fun r => r.debugger.image) h.restrict
  have hwritten := h.debug (fun d => (d.write start bytes).1) fun _ => rfl
  unfold Replay.apply
  dsimp only [Recorder.write] at hwritten ⊢
  rw [← himage] at hwritten ⊢
  split
  · exact hwritten
  · exact hwritten.say

theorem apply (step : Step) : (r.apply step).Alike v (t.apply step) := by
  cases step with
  | event e =>
    show (r.deliver e).Alike v (t.deliver e)
    rw [Replay.deliver_eq, Replay.deliver_eq]
    exact (h.stoppedAt e).handle e
  | registers values =>
    exact h.debug (fun d => values.foldl _ d) fun d => (List.foldl_hom Recorder.unreported fun _ _ => rfl).symm
  | write start bytes => exact h.write start bytes
  | function f => exact h.debug (·.addFunction f) fun _ => rfl
  | setBreakpoint a => exact h.debug (·.addBreakpoint a) fun _ => rfl
  | breakAndTaint a register => exact h.breakAndRun a ⟨register⟩
  | taintRegister register => exact h.taintRegister_apply register
  | taintMemory start length =>
    have hanalysis : (r.analysis.taintMemory start length.toNat).restrict v =
        (t.analysis.taintMemory start length.toNat).restrict v := by
      rw [← Shadow.taintMemory_restrict, ← Shadow.taintMemory_restrict, h.analysis]
    exact (h.advance hanalysis).arm.reanalyze
  | answer yes => exact h.debug (·.pushAnswer _) fun _ => rfl
  | enableStepTrace =>
    have hopened := h.count (fun p => { p with declined := false, window := 0 }) (fun _ => rfl) h.marked
    exact hopened.request .enableStepTrace

end Session.Alike

namespace Replay

open Session

/-! ## Runs -/

theorem alike_after {v : Sides} {r t : Replay} (h : r.Alike v t) (steps : List Step) :
    (r.after steps).Alike v (t.after steps) := by
  induction steps generalizing r t with
  | nil => exact h
  | cons step steps ih => exact ih (h.apply step)

/-- Options that differ only in what is not looked at lead to sessions that are alike. -/
theorem alike_after_start {v : Sides} {o p : Options} (h : o.restrict v = p.restrict v) (image : Image)
    (steps : List Step) : ((start o image).after steps).Alike v ((start p image).after steps) := by
  have hstart : (start o image).Alike v (start p image) := by
    refine ⟨?_, fun harmed => nomatch harmed⟩
    unfold Session.restrict start
    dsimp only
    rw [h]
  exact alike_after hstart steps

section Agree

variable (r t : Replay)

/-- The sessions have the same symbolic findings. -/
structure SymbolsAgree : Prop where
  symbols : t.analysis.symbols = r.analysis.symbols
  expressions : t.analysis.expressions = r.analysis.expressions
  variableCount : t.analysis.variableCount = r.analysis.variableCount
  constraints : t.progress.constraints = r.progress.constraints
  current : t.progress.current.map (fun i => (i.address, i.symbolized, i.expressions)) =
    r.progress.current.map (fun i => (i.address, i.symbolized, i.expressions))

/-- The sessions have found the same taint. -/
structure TaintAgrees : Prop where
  taint : t.analysis.taint = r.analysis.taint
  current : t.progress.current.map (fun i => (i.address, i.tainted, i.operands)) =
    r.progress.current.map (fun i => (i.address, i.tainted, i.operands))

/-- The sessions have run the process and talked with the user in the same way. -/
structure ControlAgrees : Prop where
  control : t.control = { r.control with options := t.options }
  marked : t.progress.marked = r.progress.marked

variable {r t}

theorem controlAgrees_of_alike {v : Sides} (h : r.Alike v t) : r.ControlAgrees t where
  control :=
    have hcontrol : { r.control with options := r.options.restrict v } =
        { t.control with options := t.options.restrict v } := congrArg control h.restrict
    congrArg (fun c : Control RegisterSource => { c with options := t.options }) hcontrol.symm
  marked := congrArg (fun r => r.progress.marked) h.restrict.symm

theorem symbolsAgree_of_alike (h : r.Alike ⟨false, true⟩ t) : r.SymbolsAgree t where
  symbols := congrArg (fun r => r.analysis.symbols) h.restrict.symm
  expressions := congrArg (fun r => r.analysis.expressions) h.restrict.symm
  variableCount := congrArg (fun r => r.analysis.variableCount) h.restrict.symm
  constraints := congrArg (fun r => r.progress.constraints) h.restrict.symm
  current := (h.map_current _ fun i => by simp [Instruction.restrict]).symm

theorem taintAgrees_of_alike (h : r.Alike ⟨true, false⟩ t) : r.TaintAgrees t where
  taint := congrArg (fun r => r.analysis.taint) h.restrict.symm
  current := (h.map_current _ fun i => by simp [Instruction.restrict]).symm

end Agree

/-- The sides of the analysis do not influence each other. After every step of a run, what the symbolic side has found,
in the state, in the constraints and in the instruction traced last, does not depend on whether the taint side is on,
and the other way round. As a step traces at most one instruction, this covers all that are traced. Nor do requests,
questions, counters, pending actions and breakpoints depend on either side. -/
theorem sides_independent (o : Options) (on : Bool) (image : Image) (steps : List Step) :
    let r := (start o image).after steps
    let t := (start { o with useTaint := on } image).after steps
    let u := (start { o with useSymbols := on } image).after steps
    (r.SymbolsAgree t ∧ r.ControlAgrees t) ∧ r.TaintAgrees u ∧ r.ControlAgrees u := by
  have htaint : o.restrict ⟨false, true⟩ = Options.restrict { o with useTaint := on } ⟨false, true⟩ := by
    simp [Options.restrict]
  have hsymbols : o.restrict ⟨true, false⟩ = Options.restrict { o with useSymbols := on } ⟨true, false⟩ := by
    simp [Options.restrict]
  have ht := alike_after_start htaint image steps
  have hu := alike_after_start hsymbols image steps
  exact ⟨⟨symbolsAgree_of_alike ht, controlAgrees_of_alike ht⟩, taintAgrees_of_alike hu, controlAgrees_of_alike hu⟩

end Replay

/-! ## Reports -/

/-- The options, with the choices of others about what is reported and in which colours. -/
def Options.reportAs (o p : Options) : Options :=
  { o with
    showInfo := p.showInfo
    showDetail := p.showDetail
    paintExecuted := p.paintExecuted
    commentControlled := p.commentControlled
    commentExpressions := p.commentExpressions
    renameTainted := p.renameTainted
    colorTainted := p.colorTainted
    colorCondition := p.colorCondition
    colorExecuted := p.colorExecuted }

theorem Instruction.restrict_both (i : Instruction) : i.restrict ⟨true, true⟩ = i := by
  simp [restrict]

theorem Shadow.restrict_both (s : Shadow) : s.restrict ⟨true, true⟩ = s := by
  simp [restrict]

theorem Progress.restrict_both {α : Type} (p : Progress α) : p.restrict ⟨true, true⟩ = { p with renamed := 0 } := by
  simp [restrict, Instruction.restrict_both]

namespace Replay

/-- What is reported is only reported. After every step of a run, two sessions whose options differ in this alone do not
differ but in lines, colours, comments and names of functions, and in how many functions have been renamed. -/
theorem reports_observational (o p : Options) (image : Image) (steps : List Step) :
    let r := (start o image).after steps
    let t := (start (o.reportAs p) image).after steps
    t.analysis = r.analysis ∧
      t.progress = { r.progress with renamed := t.progress.renamed } ∧
      t.debugger = { r.debugger with
        colors := t.debugger.colors
        comments := t.debugger.comments
        renames := t.debugger.renames
        log := t.debugger.log } := by
  intro r t
  have hoptions : o.restrict ⟨true, true⟩ = (o.reportAs p).restrict ⟨true, true⟩ := rfl
  have h : r.Alike ⟨true, true⟩ t := alike_after_start hoptions image steps
  have hprogress : r.progress.restrict ⟨true, true⟩ = t.progress.restrict ⟨true, true⟩ :=
    congrArg Session.progress h.restrict
  have hdebugger : r.debugger.unreported = t.debugger.unreported := congrArg Session.debugger h.restrict
  rw [Progress.restrict_both, Progress.restrict_both] at hprogress
  refine ⟨?_, ?_, ?_⟩
  · rw [← t.analysis.restrict_both, ← r.analysis.restrict_both]
    exact h.analysis.symm
  · exact congrArg (fun q : Progress RegisterSource => { q with renamed := t.progress.renamed }) hprogress.symm
  · exact congrArg (fun d : Recorder => { d with
      colors := t.debugger.colors
      comments := t.debugger.comments
      renames := t.debugger.renames
      log := t.debugger.log }) hdebugger.symm

end Replay

end TaintReplay
