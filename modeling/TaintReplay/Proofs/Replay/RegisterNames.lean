import TaintReplay.Proofs.Analysis.RegisterNames
import TaintReplay.Proofs.Replay.Course
import TaintReplay.Proofs.Replay.History
import TaintReplay.Proofs.Replay.RegisterOrder

/-!
# The names under which a run keeps registers

Register names come into a run with its steps, with the actions that wait at breakpoints, and with the instructions that
are traced. What a step makes a source (`Replay.sourced`) and which registers it sets (`Step.assignments`) is said
exactly, and all of it is entered under full names. So two names of one full register cannot be told apart in any state
of a run (`registers_after`).
-/

namespace TaintReplay

open Register

/-- The registers that a step sets, each with its value, one after the other. -/
def Step.assignments : Step → List (String × UInt64)
  | .event e =>
    match e.stop? with
    | some (_, pc) => [(counter.name, pc)]
    | none => []
  | .registers values => values
  | _ => []

/-- Nothing is kept under a wrong name where nothing is kept. -/
theorem Shadow.named_of_empty {s : Shadow} (taint : s.taint = {}) (symbols : s.symbols = {}) : s.Named := by
  constructor
  · intro r hr
    rw [Shadow.isTainted, taint] at hr
    simp at hr
  · intro r hr
    rw [Shadow.isSymbolic, symbols] at hr
    simp at hr

namespace Replay

open Session

variable (r : Replay)

/-! ## What steps make sources, and which registers they set -/

/-- The analysis after a register has become a source, if it is a known one. -/
def withSource (s : Shadow) (name : String) : Shadow :=
  match s.taintRegister name with
  | .ok t => t
  | .error _ => s

/-- The analysis after what a step makes a source, and before its trace. -/
def sourced : Step → Shadow
  | .event (.breakpoint _ pc) =>
    match r.progress.pending.take? pc with
    | some (a, _) => withSource r.analysis a.action.register
    | none => r.analysis
  | .taintRegister register => withSource r.analysis register
  | .taintMemory start length => r.analysis.taintMemory start length.toNat
  | _ => r.analysis

theorem analysis_fire (a : PendingAction RegisterSource) (pc : UInt64) :
    (r.fire a pc).1.analysis = withSource r.analysis a.action.register := by
  unfold fire withSource
  dsimp only [Action.fire]
  have htaint : Analyzer.taintRegister r.analysis a.action.register = r.analysis.taintRegister a.action.register := rfl
  rw [htaint]
  cases r.analysis.taintRegister a.action.register with
  | ok t => rfl
  | error cause => rfl

theorem analysis_observation (thread pc : UInt64) : (observation r thread pc).session.analysis = r.analysis :=
  (Keeps.paint (.refl r) pc).analysis

theorem analysis_stepCall? {c : Call} {thread pc : UInt64} {into : Bool} (h : c ∈ r.stepCall? thread pc into) :
    c.session.analysis = r.analysis := by
  unfold stepCall? at h
  split at h
  · cases h
  · split at h
    · cases h
    · cases h
      rw [analysis_observation]
      exact (Keeps.detail (.refl r) _ _).analysis

theorem analysis_eventCall? {c : Call} {e : Event} (h : c ∈ r.eventCall? e) :
    c.session.analysis = r.sourced (.event e) := by
  cases e with
  | processStart | processExit => cases h
  | stepInto thread pc | stepOver thread pc => exact r.analysis_stepCall? h
  | trace thread pc =>
    unfold eventCall? at h
    dsimp only at h
    split at h
    · cases h
    · cases h
      exact r.analysis_observation thread pc
  | breakpoint thread pc =>
    unfold eventCall? at h
    dsimp only at h
    cases hq : r.progress.pending.take? pc with
    | none => simp [hq] at h
    | some taken =>
      obtain ⟨a, pending⟩ := taken
      simp only [hq, Option.mem_def, Option.some.injEq] at h
      rw [← h, analysis_observation, analysis_fire]
      simp only [sourced, hq]

theorem analysis_reanalysis? {c : Call} (h : c ∈ r.reanalysis?) : c.session.analysis = r.analysis := by
  unfold reanalysis? at h
  split at h
  · cases h
  · cases h
    exact (Keeps.inform (.refl r) _ _).analysis

/-- A trace meets the analysis as the source of its step has left it. -/
theorem analysis_call? {c : Call} {step : Step} (h : c ∈ r.call? step) : c.session.analysis = r.sourced step := by
  cases step with
  | event e =>
    have hstopped : (r.stoppedAt e).sourced (.event e) = r.sourced (.event e) := by cases e <;> rfl
    rw [← hstopped]
    exact analysis_eventCall? _ h
  | taintRegister register =>
    unfold call? at h
    dsimp only at h
    cases ht : r.analysis.taintRegister register with
    | ok t =>
      simp only [ht] at h
      rw [analysis_reanalysis? _ h]
      simp only [sourced, withSource, ht]
      rfl
    | error cause => simp [ht] at h
  | taintMemory start length => exact analysis_reanalysis? _ h
  | _ => cases h

theorem analysis_reanalyze_of_none (h : r.reanalysis? = none) : r.reanalyze.1.analysis = r.analysis := by
  have hregister : r.debugger.register .counter = Debugger.register r.debugger .counter := rfl
  unfold reanalysis? at h
  unfold reanalyze
  rw [hregister] at h
  cases hpc : Debugger.register r.debugger .counter with
  | none => rfl
  | some pc => simp [hpc] at h

/-- A step without a trace leaves the analysis as its source has left it. -/
theorem analysis_apply_of_none {step : Step} (hstart : step ≠ .event .processStart) (h : r.call? step = none) :
    (r.apply step).analysis = r.sourced step := by
  have hunseeded (hseeds : r.seeds step = false) : (r.apply step).analysis = r.analysis := by
    have hcourse := r.course_apply hstart
    rw [h] at hcourse
    cases hcourse with
    | quiet huntraced => exact huntraced.analysis hseeds
  cases step with
  | event e =>
    cases e with
    | breakpoint thread pc =>
      cases hq : r.progress.pending.take? pc with
      | none =>
        have hseeds : r.seeds (.event (.breakpoint thread pc)) = false := by simp [seeds, eventSeeds, hq]
        rw [hunseeded hseeds]
        simp [sourced, hq]
      | some taken =>
        have htake : (r.stoppedAt (.breakpoint thread pc)).progress.pending.take? pc = some taken := hq
        simp [call?, eventCall?, htake] at h
    | _ => exact hunseeded rfl
  | taintRegister register =>
    have htaint : Analyzer.taintRegister r.analysis register = r.analysis.taintRegister register := rfl
    unfold call? at h
    unfold apply Session.taintRegister sourced withSource
    dsimp only at h ⊢
    rw [htaint]
    cases ht : r.analysis.taintRegister register with
    | ok t =>
      rw [ht] at h
      exact analysis_reanalyze_of_none _ h
    | error cause => rfl
  | taintMemory start length => exact analysis_reanalyze_of_none _ h
  | _ => exact hunseeded rfl

/-- A step with a trace leaves the analysis as the trace has left it. -/
theorem analysis_apply_of_some {step : Step} {c : Call} (h : r.call? step = some c) :
    (r.apply step).analysis = c.run.1.analysis := by
  have hturn := r.turn_apply step
  rw [h] at hturn
  cases hturn with
  | trace _ hkeeps => exact hkeeps.analysis

/-- Entering registers by their names. -/
def enter (m : RegisterMap UInt64) (values : List (String × UInt64)) : RegisterMap UInt64 :=
  values.foldl (fun m (name, value) => m.insert (.ofName name) value) m

theorem registers_setRegisters (values : List (String × UInt64)) : ∀ d : Recorder,
    (setRegisters d values).registers = enter d.registers values := by
  induction values with
  | nil => exact fun _ => rfl
  | cons x values ih =>
    intro d
    exact ih (d.setRegister x.1 x.2)

/-- What leaves any map of registers as it is leaves the one of the session. -/
theorem registers_of_withRegisters {r : Replay} {f : Replay → Replay}
    (hf : f (r.withRegisters r.debugger.registers) = (f r).withRegisters r.debugger.registers) :
    (f r).debugger.registers = r.debugger.registers := congrArg (·.debugger.registers) hf

/-- A step enters the registers that it sets by their names, and no others. -/
theorem registers_apply (step : Step) :
    (r.apply step).debugger.registers = enter r.debugger.registers step.assignments := by
  cases step with
  | event e =>
    have hhandle : ((r.stoppedAt e).handle e).debugger.registers = (r.stoppedAt e).debugger.registers :=
      registers_of_withRegisters (f := (Session.handle · e)) (handle_withRegisters rfl e)
    show (r.deliver e).debugger.registers = _
    rw [deliver_eq, hhandle]
    cases e <;> rfl
  | registers values => exact registers_setRegisters values r.debugger
  | _ => exact registers_of_withRegisters (f := (Replay.apply · _)) (apply_withRegisters rfl nofun nofun)

/-! ## Runs -/

/-- Everything that is kept by register is kept under full registers. -/
structure RegistersNamed : Prop where
  analysis : r.analysis.Named
  registers : r.debugger.registers.Named

variable {r}

theorem named_withSource {s : Shadow} (h : s.Named) (name : String) : (withSource s name).Named := by
  unfold withSource
  split
  · rename_i t ht
    exact h.taintRegister ht
  · exact h

theorem named_sourced (h : r.analysis.Named) (step : Step) : (r.sourced step).Named := by
  cases step with
  | event e =>
    cases e with
    | breakpoint thread pc =>
      unfold sourced
      dsimp only
      split
      · exact named_withSource h _
      · exact h
    | _ => exact h
  | taintRegister register => exact named_withSource h register
  | taintMemory start length => exact h.taintMemory start _
  | _ => exact h

/-- A trace keeps full registers, whatever it examines. -/
theorem named_run {c : Call} (h : c.session.analysis.Named) : c.run.1.analysis.Named := by
  rcases c.examines_or_unexamined with ⟨d, i, hdi⟩ | hnone
  · rw [hdi.run.2.analysis]
    exact h.step d i _
  · rw [(Call.unexamined hnone).2.analysis]
    exact h

theorem named_apply (h : r.analysis.Named) (step : Step) : (r.apply step).analysis.Named := by
  cases hc : r.call? step with
  | some c =>
    rw [r.analysis_apply_of_some hc]
    refine named_run ?_
    rw [r.analysis_call? hc]
    exact named_sourced h step
  | none =>
    by_cases hstart : step = .event .processStart
    · have hfresh : (r.apply step).analysis = .fresh r.options := by
        rw [hstart]
        exact congrArg Session.analysis r.deliver_processStart
      rw [hfresh]
      exact Shadow.named_of_empty rfl rfl
    · rw [r.analysis_apply_of_none hstart hc]
      exact named_sourced h step

theorem named_enter {values : List (String × UInt64)} :
    ∀ {m : RegisterMap UInt64}, m.Named → (enter m values).Named := by
  induction values with
  | nil => exact fun h => h
  | cons x values ih =>
    intro m h
    exact ih (h.insert x.1 x.2)

theorem RegistersNamed.apply (h : r.RegistersNamed) (step : Step) : (r.apply step).RegistersNamed := by
  constructor
  · exact named_apply h.analysis step
  · rw [registers_apply]
    exact named_enter h.registers

theorem registersNamed_start (options : Options) (image : Image) : (start options image).RegistersNamed where
  analysis := Shadow.named_of_empty rfl rfl
  registers := RegisterMap.named_empty

theorem RegistersNamed.after (h : r.RegistersNamed) (steps : List Step) : (r.after steps).RegistersNamed := by
  induction steps using List.reverseRecOn with
  | nil => exact h
  | append_singleton steps step ih =>
    rw [after_append_singleton]
    exact ih.apply step

/-- In every state of a run, taint, expressions and values are kept under full registers, each of which its own name
leads to. So a register is found by a name iff one is kept whose name is the canonical one, and names with one canonical
name are answered alike. A register that is set under one name has its value under these, and no other register has
changed. -/
theorem registers_after (options : Options) (image : Image) (steps : List Step) :
    let r := (start options image).after steps
    let tainted := r.analysis.taint.registers.keys
    let symbolic := r.analysis.symbols.registers.keys
    let known := r.debugger.registers.keys
    (∀ k ∈ tainted ++ symbolic ++ known, canonical k.name = k.name ∧ ofName k.name = k) ∧
    (∀ x, (Analyzer.isRegisterTainted r.analysis x = true ↔ canonical x ∈ tainted.map name) ∧
      ((Analyzer.registerSymbol r.analysis (ofName x)).isSome = true ↔ canonical x ∈ symbolic.map name) ∧
      ((r.debugger.register (ofName x)).isSome = true ↔ canonical x ∈ known.map name)) ∧
    (∀ x y, canonical x = canonical y →
      Analyzer.isRegisterTainted r.analysis x = Analyzer.isRegisterTainted r.analysis y ∧
      Analyzer.registerSymbol r.analysis (ofName x) = Analyzer.registerSymbol r.analysis (ofName y) ∧
      r.debugger.register (ofName x) = r.debugger.register (ofName y)) ∧
    ∀ x y value, (r.debugger.setRegister x value).register (ofName y) =
      if canonical x = canonical y then some value else r.debugger.register (ofName y) := by
  have hnamed := (registersNamed_start options image).after steps
  generalize (start options image).after steps = r at hnamed
  have htaint := hnamed.analysis.taint_keys
  have hsymbols := hnamed.analysis.symbols_keys
  refine ⟨?_, ?_, ?_, ?_⟩
  · intro k hk
    have hkey : k.Named := by
      rw [List.mem_append, List.mem_append] at hk
      rcases hk with (hk | hk) | hk
      · exact htaint k hk
      · exact hsymbols k hk
      · exact hnamed.registers k hk
    exact ⟨hkey.canonical_name, hkey⟩
  · intro x
    exact ⟨htaint.isSome_get?_iff x, hsymbols.isSome_get?_iff x, hnamed.registers.isSome_get?_iff x⟩
  · intro x y hxy
    have hname := (canonical_eq_iff x y).1 hxy
    refine ⟨?_, ?_, ?_⟩
    · show (r.analysis.taint.get? (.register (ofName x))).isSome = (r.analysis.taint.get? (.register (ofName y))).isSome
      rw [hname]
    · rw [hname]
    · rw [hname]
  · intro x y value
    rw [Recorder.register_setRegister]
    by_cases hxy : canonical x = canonical y
    · rw [if_pos hxy, if_pos ((canonical_eq_iff x y).1 hxy).symm]
    · rw [if_neg hxy, if_neg fun h => hxy ((canonical_eq_iff x y).2 h.symm)]

end Replay

end TaintReplay
