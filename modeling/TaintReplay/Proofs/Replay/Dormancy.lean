import TaintReplay.Proofs.Replay.Course
import TaintReplay.Proofs.Replay.History

/-!
# Sessions that are not armed

Until the process starts again or something becomes a source, a session that is not armed finds out nothing: whatever
else happens, it stays unarmed, and all its findings stay as they are but for the colours of executed instructions
(`untraced_after`, `findings_after_of_dormant`). A name that is no register makes nothing a source
(`apply_taintRegister_of_not_isRegister`, `course_breakpoint_of_not_isRegister`).
-/

namespace TaintReplay

open Session

namespace Replay

/-! ## Runs -/

/-- The addresses of the executed instructions that a session looks at in a run, in order. -/
def executed : Replay → List Step → List UInt64
  | _, [] => []
  | r, step :: steps => (r.executed? step).toList ++ executed (r.apply step) steps

/-- An executed instruction stands where an event reports the process to have stopped. -/
theorem stop_of_executed? {r : Replay} {step : Step} {pc : UInt64} (h : r.executed? step = some pc) :
    ∃ e thread, step = .event e ∧ e.stop? = some (thread, pc) := by
  have hstep {s : Replay} {thread place : UInt64} {into : Bool}
      (hs : (s.stepCall? thread place into).map (·.pc) = some pc) : place = pc := by
    unfold stepCall? at hs
    split at hs
    · cases hs
    · split at hs
      · cases hs
      · exact Option.some.inj hs
  cases step with
  | event e =>
    cases e with
    | processStart | processExit => cases h
    | stepInto thread place => exact ⟨_, thread, rfl, by rw [← hstep h]; rfl⟩
    | stepOver thread place => exact ⟨_, thread, rfl, by rw [← hstep h]; rfl⟩
    | trace thread place =>
      unfold executed? eventCall? at h
      dsimp only at h
      split at h
      · cases h
      · exact ⟨_, thread, rfl, by rw [← Option.some.inj h]; rfl⟩
    | breakpoint thread place =>
      unfold executed? eventCall? at h
      dsimp only at h
      split at h
      · cases h
      · exact ⟨_, thread, rfl, by rw [← Option.some.inj h]; rfl⟩
  | _ => cases h

theorem stop_of_mem_executed {pc : UInt64} : ∀ (steps : List Step) {r : Replay}, pc ∈ r.executed steps →
    ∃ e thread, .event e ∈ steps ∧ e.stop? = some (thread, pc)
  | [], _, h => nomatch h
  | step :: steps, r, h => by
    rcases List.mem_append.1 h with h | h
    · obtain ⟨e, thread, rfl, hstop⟩ := stop_of_executed? (Option.mem_toList.1 h)
      exact ⟨e, thread, List.mem_cons_self, hstop⟩
    · obtain ⟨e, thread, he, hstop⟩ := stop_of_mem_executed steps h
      exact ⟨e, thread, List.mem_cons_of_mem _ he, hstop⟩

/-- Nothing is traced in a run that begins unarmed, in which the process does not start and nothing becomes a
source. -/
theorem untraced_after : ∀ (steps : List Step) {r : Replay}, r.progress.armed = false →
    (∀ m ∈ r.moments steps, m.2 ≠ .event .processStart ∧ m.1.seeds m.2 = false) →
      r.Untraced false (r.executed steps) (r.after steps)
  | [], r, _, _ => .refl r
  | step :: steps, r, hr, hsteps => by
    obtain ⟨hstart, hseeds⟩ := hsteps (r, step) List.mem_cons_self
    have hcourse := r.course_apply hstart
    rw [hseeds] at hcourse
    have hstep := hcourse.untraced hr
    exact hstep.trans (untraced_after steps (hstep.dormant hr) fun m hm => hsteps m (List.mem_cons_of_mem _ hm))

/-! ## Names that are no registers -/

/-- Trying to make a source of what is no register writes a line. -/
theorem apply_taintRegister_of_not_isRegister (r : Replay) {register : String} (h : isRegister register = false) :
    r.apply (.taintRegister register) = r.say .warn .replay ("[!] unknown register " ++ register) := by
  unfold apply Session.taintRegister
  dsimp only
  rw [show Analyzer.taintRegister r.analysis register = _ from taintRegister_eq_error r.analysis h]
  rfl

/-- An action that fires for what is no register leaves the analysis alone and does not arm the session. Only the trace
behind it may change the analysis. -/
theorem course_breakpoint_of_not_isRegister (r : Replay) (thread : UInt64) {pc : UInt64}
    {a : PendingAction RegisterSource} {pending : ActionQueue RegisterSource}
    (ha : r.progress.pending.take? pc = some (a, pending)) (h : isRegister a.action.register = false) :
    let t := r.apply (.event (.breakpoint thread pc))
    (t.progress.armed = true → r.progress.armed = true) ∧ ∃ c, r.call? (.event (.breakpoint thread pc)) = some c ∧
      c.session.analysis = r.analysis ∧ t.analysis = c.run.1.analysis := by
  intro t
  have hseeds : r.seeds (.event (.breakpoint thread pc)) = false := by
    unfold seeds eventSeeds
    dsimp only
    rw [ha, ← h]
  have hstart : Step.event (.breakpoint thread pc) ≠ .event .processStart := by simp
  have hcourse := r.course_apply hstart
  rw [hseeds] at hcourse
  obtain ⟨c, hc⟩ : ∃ c, r.call? (.event (.breakpoint thread pc)) = some c := by
    unfold call? eventCall?
    dsimp only [stoppedAt, Event.stop?]
    rw [ha]
    exact ⟨_, rfl⟩
  rw [hc] at hcourse
  cases hcourse with
  | trace hbefore hbehind =>
    refine ⟨fun ht => ?_, c, hc, hbefore.analysis rfl, hbehind.analysis rfl⟩
    have hrun : c.run.1.progress.armed = true := by simpa using hbehind.armed ht
    have htrace : c.run.1.progress.armed = c.session.progress.armed :=
      congrArg Control.armed (c.session.control_trace c.pc c.thread)
    simpa using hbefore.armed (htrace.symm.trans hrun)

/-- A session that is not armed finds out nothing until the process starts again or something becomes a source: it stays
unarmed, and of its analysis, its log, its mark, its current instruction, its comments, names and colours only the
colours of executed instructions change, if these are painted. What is no register never arms a session and never
changes its analysis. -/
theorem findings_after_of_dormant (r : Replay) (h : r.progress.armed = false) (steps : List Step)
    (hsteps : ∀ m ∈ r.moments steps, m.2 ≠ .event .processStart ∧ m.1.seeds m.2 = false) :
    let t := r.after steps
    t.progress.armed = false ∧
      t.findings = { r.findings with colors := coat r.options r.debugger.colors (r.executed steps) } ∧
      (∀ pc ∈ r.executed steps, ∃ e thread, .event e ∈ steps ∧ e.stop? = some (thread, pc)) ∧
      (∀ (s : Replay) register, isRegister register = false →
        (s.apply (.taintRegister register)).progress = s.progress ∧
          (s.apply (.taintRegister register)).analysis = s.analysis) ∧
      ∀ (s : Replay) thread pc a pending, s.progress.pending.take? pc = some (a, pending) →
        isRegister a.action.register = false →
          let t := s.apply (.event (.breakpoint thread pc))
          (t.progress.armed = true → s.progress.armed = true) ∧
            ∃ c, s.call? (.event (.breakpoint thread pc)) = some c ∧
              c.session.analysis = s.analysis ∧ t.analysis = c.run.1.analysis := by
  intro t
  have hrun := untraced_after steps h hsteps
  refine ⟨hrun.dormant h, ?_, fun pc hpc => stop_of_mem_executed steps hpc, fun s register hs => ?_,
    fun s thread pc a pending ha hs => s.course_breakpoint_of_not_isRegister thread ha hs⟩
  · rw [hrun.findings, hrun.analysis rfl, Bool.or_false]
    rfl
  · rw [s.apply_taintRegister_of_not_isRegister hs]
    exact ⟨rfl, rfl⟩

/-- After the process has exited, an action for what is no register fires, and executed instructions are painted. -/
theorem findings_after_exit :
    let r := (start { paintExecuted := true } { segments := [⟨0x1000, #[0x90, 0x90, 0x90], by decide⟩] }).after
      [.registers [("rip", 0x1000)], .taintRegister "rdi", .event .processExit]
    let steps := [.breakAndTaint 0x1001 "bogus", .event (.breakpoint 0 0x1001), .event (.stepInto 0 0x1002),
      .event (.trace 0 0x1000), .taintRegister "bogus"]
    r.progress.armed = false ∧ r.progress.marked = true ∧
      (∀ m ∈ r.moments steps, m.2 ≠ .event .processStart ∧ m.1.seeds m.2 = false) ∧
      (r.after steps).progress.armed = false ∧
      (r.after steps).findings =
        { r.findings with colors := coat r.options r.debugger.colors [0x1001, 0x1002, 0x1000] } := by
  intro r steps
  have hr : r.progress.armed = false := by decide +kernel
  have hsteps : ∀ m ∈ r.moments steps, m.2 ≠ .event .processStart ∧ m.1.seeds m.2 = false := by decide +kernel
  obtain ⟨harmed, hfindings, -⟩ := findings_after_of_dormant r hr steps hsteps
  have hexecuted : r.executed steps = [0x1001, 0x1002, 0x1000] := by decide +kernel
  rw [hexecuted] at hfindings
  exact ⟨hr, by decide +kernel, hsteps, harmed, hfindings⟩

end Replay

end TaintReplay
