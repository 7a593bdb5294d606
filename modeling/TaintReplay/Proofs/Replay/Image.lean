import TaintReplay.Proofs.Replay.Drive

/-!
# The image of a replay

No event and no trace touches the image of the process. So the session before the trace of a step has the image that the
step meets (`image_call?`), and the functions that are known after a run are those of the image and those that the steps
make known (`functions_after`).
-/

namespace TaintReplay

open Session

/-- The function that a step makes known. -/
def Step.function? : Step → Option FunctionRange
  | .function f => some f
  | _ => none

namespace Replay

variable (r : Replay)

theorem image_onStep (thread pc : UInt64) (into : Bool) :
    (r.onStep thread pc into).debugger.image = r.debugger.image := by
  obtain ⟨_, h⟩ := r.exists_control_onStep_eq thread pc into
  exact congrArg Control.image h

theorem image_onTrace (thread pc : UInt64) : (r.onTrace thread pc).debugger.image = r.debugger.image := by
  obtain ⟨_, _, _, _, _, _, _, h⟩ := r.exists_control_onTrace_eq thread pc
  exact congrArg Control.image h

theorem image_fire (a : PendingAction RegisterSource) (pc : UInt64) :
    (r.fire a pc).1.debugger.image = r.debugger.image := by
  obtain ⟨⟨_, h⟩, -⟩ := r.exists_control_fire_eq a pc
  exact congrArg Control.image h

theorem image_onBreakpoint (thread pc : UInt64) : (r.onBreakpoint thread pc).debugger.image = r.debugger.image := by
  unfold onBreakpoint
  cases r.progress.pending.take? pc with
  | none => rfl
  | some taken =>
    obtain ⟨a, pending⟩ := taken
    dsimp only
    generalize ht : Session.observe (_ : Replay) thread pc = t
    have himage : t.debugger.image = r.debugger.image := by
      rw [← ht]
      exact (congrArg Control.image (control_observe _ thread pc)).trans (image_fire _ a pc)
    split
    · exact himage
    · split
      · exact himage
      · exact himage

theorem image_handle (e : Event) : (r.handle e).debugger.image = r.debugger.image := by
  cases e with
  | processStart =>
    obtain ⟨_, hstart⟩ := exists_announceStart_eq r.options r.debugger
    show (r.onProcessStart).debugger.image = _
    rw [onProcessStart_eq, restarted, hstart]
    rfl
  | processExit => exact congrArg Control.image (r.control_inform _ _)
  | stepInto thread pc => exact r.image_onStep thread pc true
  | stepOver thread pc => exact r.image_onStep thread pc false
  | trace thread pc => exact r.image_onTrace thread pc
  | breakpoint thread pc => exact r.image_onBreakpoint thread pc

theorem image_stoppedAt (e : Event) : (r.stoppedAt e).debugger.image = r.debugger.image := by
  unfold stoppedAt
  split <;> rfl

theorem image_advance (analysis : Shadow) : (r.advance analysis).arm.debugger.image = r.debugger.image :=
  congrArg Control.image (r.control_advance analysis)

theorem image_reanalysis? {c : Call} (h : c ∈ r.reanalysis?) : c.session.debugger.image = r.debugger.image := by
  unfold reanalysis? at h
  split at h
  · cases h
  · cases h
    exact congrArg Control.image (r.control_inform _ _)

theorem image_observation (thread pc : UInt64) :
    (observation r thread pc).session.debugger.image = r.debugger.image :=
  congrArg Control.image (r.control_paint pc)

theorem image_stepCall? {c : Call} {thread pc : UInt64} {into : Bool} (h : c ∈ r.stepCall? thread pc into) :
    c.session.debugger.image = r.debugger.image := by
  unfold stepCall? at h
  split at h
  · cases h
  · split at h
    · cases h
    · cases h
      rw [image_observation]
      exact congrArg Control.image (r.control_detail _ _)

theorem image_eventCall? {c : Call} {e : Event} (h : c ∈ r.eventCall? e) :
    c.session.debugger.image = r.debugger.image := by
  cases e with
  | processStart | processExit => cases h
  | stepInto thread pc | stepOver thread pc => exact r.image_stepCall? h
  | trace thread pc =>
    unfold eventCall? at h
    dsimp only at h
    split at h
    · cases h
    · cases h
      exact r.image_observation thread pc
  | breakpoint thread pc =>
    unfold eventCall? at h
    dsimp only at h
    split at h
    · cases h
    · cases h
      rw [image_observation, image_fire]

/-- The session before a trace has the image that the step meets. -/
theorem image_call? {c : Call} {step : Step} (h : c ∈ r.call? step) :
    c.session.debugger.image = r.debugger.image := by
  cases step with
  | event e => exact (image_eventCall? _ h).trans (r.image_stoppedAt e)
  | taintRegister register =>
    unfold call? at h
    dsimp only at h
    split at h
    · exact (image_reanalysis? _ h).trans (r.image_advance _)
    · cases h
  | taintMemory start length => exact (image_reanalysis? _ h).trans (r.image_advance _)
  | _ => cases h

/-- A step makes known the function that it names, and no step forgets one. -/
theorem functions_apply (step : Step) :
    (r.apply step).debugger.image.functions = r.debugger.image.functions ++ step.function?.toList := by
  have hkept {t : Replay} (h : t.debugger.image = r.debugger.image) :
      t.debugger.image.functions = r.debugger.image.functions ++ [] := by
    rw [h, List.append_nil]
  cases step with
  | event e =>
    refine hkept ?_
    show (r.deliver e).debugger.image = _
    rw [deliver_eq, image_handle, image_stoppedAt]
  | registers values =>
    obtain ⟨registers, hregisters⟩ := exists_foldl_setRegister_eq values r.debugger
    refine hkept ?_
    unfold apply
    dsimp only
    rw [hregisters]
  | write start bytes =>
    unfold apply
    dsimp only
    split <;> exact (List.append_nil _).symm
  | function f => rfl
  | breakAndTaint a register =>
    refine hkept ?_
    unfold apply breakAndRun
    dsimp only
    split <;> rfl
  | taintRegister register =>
    refine hkept ?_
    unfold apply Session.taintRegister
    dsimp only
    cases Analyzer.taintRegister r.analysis register with
    | ok analysis => exact congrArg Control.image (r.control_reanalyze_advance analysis)
    | error cause => rfl
  | taintMemory start length => exact hkept (congrArg Control.image (r.control_reanalyze_advance _))
  | setBreakpoint _ | answer _ | enableStepTrace => exact hkept rfl

theorem functions_after (steps : List Step) : ∀ r : Replay,
    (r.after steps).debugger.image.functions = r.debugger.image.functions ++ steps.filterMap Step.function? := by
  induction steps with
  | nil => exact fun r => (List.append_nil _).symm
  | cons step steps ih =>
    intro r
    have hstep : (step :: steps).filterMap Step.function? =
        step.function?.toList ++ steps.filterMap Step.function? := by
      cases h : step.function? <;> simp [h]
    show ((r.apply step).after steps).debugger.image.functions = _
    rw [ih, functions_apply, hstep, List.append_assoc]

end Replay

end TaintReplay
