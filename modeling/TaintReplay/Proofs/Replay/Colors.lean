import TaintReplay.Proofs.Replay.Course
import TaintReplay.Proofs.Replay.Drive
import TaintReplay.Proofs.Replay.History
import TaintReplay.Proofs.Session.Shown

/-!
# The colours of a run

As long as executed instructions are not painted, a step colours no address but the one of its trace, and only if the
trace finds something there (`color_apply`). So the colour of an address is the one that its latest sighting has given
it (`color_after`), where the `Replay.sightings` of an address are the traces of a run that have found the instruction
there tainted or symbolic.
-/

namespace TaintReplay

open Session

namespace Replay

/-! ## Sightings -/

/-- The traces of a run that have found the instruction at an address tainted or symbolic. -/
def sightings (address : UInt64) (r : Replay) (steps : List Step) : List Call :=
  (r.calls steps).filter fun c => c.pc == address && c.run.2.finds

/-- The colour that a trace gives an instruction that is tainted or symbolic. -/
def Call.color (c : Call) (o : Options) : UInt32 := o.colorOf (c.session.debugger.branchesAt c.pc)

variable {r : Replay} {address : UInt64}

theorem sightings_cons (step : Step) (steps : List Step) :
    r.sightings address (step :: steps) = r.sightings address [step] ++ (r.apply step).sightings address steps := by
  simp [sightings, calls, List.filter_append]

theorem mem_sightings {steps : List Step} {c : Call} : c ∈ r.sightings address steps ↔
    c ∈ r.calls steps ∧ c.pc = address ∧
      ∃ tainted symbolized constraint, c.run.2 = .traced tainted symbolized constraint ∧
        (tainted = true ∨ symbolized = true) := by
  simp only [sightings, List.mem_filter, Bool.and_eq_true, beq_iff_eq]
  refine and_congr_right fun _ => and_congr_right fun _ => ?_
  cases c.run.2 with
  | dormant => simp [Outcome.finds]
  | abandoned cause => simp [Outcome.finds]
  | traced tainted symbolized constraint =>
    constructor
    · intro h
      exact ⟨_, _, _, rfl, by simpa [Outcome.finds] using h⟩
    · rintro ⟨_, _, _, ⟨⟩, h⟩
      simpa [Outcome.finds] using h

/-! ## Steps -/

theorem coat_of_not_paintExecuted {o : Options} (h : o.paintExecuted = false) (colors : Std.TreeMap UInt64 UInt32)
    (executed : List UInt64) : coat o colors executed = colors := by
  rw [coat, h]
  rfl

/-- What is shown stays when the process is started anew. -/
theorem shown_processStart (r : Replay) : (r.apply (.event .processStart)).shown = r.shown := by
  obtain ⟨_, hannounced⟩ := exists_announceStart_eq r.options r.debugger
  show (r.deliver .processStart).shown = _
  rw [deliver_processStart, restarted, hannounced]
  rfl

/-- A trace colours its address if it finds something. -/
theorem Call.color_run (c : Call) : c.run.1.debugger.colors[address]? =
    if c.pc = address ∧ c.run.2.finds = true then some (c.color c.session.options)
    else c.session.debugger.colors[address]? := by
  obtain ⟨_, -, hshown⟩ := c.session.shown_trace c.pc c.thread
  have hcolors : c.run.1.debugger.colors = if c.run.2.finds then
      c.session.debugger.colors.insert c.pc (c.color c.session.options) else c.session.debugger.colors :=
    congrArg Shown.colors hshown
  rw [hcolors]
  cases c.run.2.finds with
  | false => simp
  | true => simp [Std.TreeMap.getElem?_insert]

/-- As long as executed instructions are not painted, a step colours the address of its trace if that finds something,
and no other. -/
theorem color_apply (hpaint : r.options.paintExecuted = false) (step : Step) :
    (r.apply step).debugger.colors[address]? =
      ((r.sightings address [step]).getLast?.map (·.color r.options)).or r.debugger.colors[address]? := by
  by_cases hstart : step = .event .processStart
  · have hcolors : (r.apply step).debugger.colors = r.debugger.colors :=
      hstart ▸ congrArg Shown.colors r.shown_processStart
    have hnone : r.sightings address [step] = [] := by rw [hstart]; rfl
    rw [hcolors, hnone]
    rfl
  · have hcourse := r.course_apply hstart
    cases hc : r.call? step with
    | none =>
      rw [hc] at hcourse
      cases hcourse with
      | quiet h =>
        rw [h.colors, coat_of_not_paintExecuted hpaint]
        simp [sightings, calls, hc]
    | some c =>
      rw [hc] at hcourse
      cases hcourse with
      | trace h hk =>
        rw [hk.colors, coat_nil, c.color_run, h.colors, coat_of_not_paintExecuted hpaint, h.options]
        by_cases hfinds : c.pc = address ∧ c.run.2.finds = true
        · simp [sightings, calls, hc, hfinds]
        · rw [if_neg hfinds]
          simp [sightings, calls, hc, hfinds]

/-! ## Runs -/

/-- The colour of an address is that of its latest sighting, or what it was before. -/
theorem color_after (steps : List Step) : ∀ {r : Replay}, r.options.paintExecuted = false →
    (r.after steps).debugger.colors[address]? =
      ((r.sightings address steps).getLast?.map (·.color r.options)).or r.debugger.colors[address]? := by
  induction steps with
  | nil => exact fun _ => rfl
  | cons step steps ih =>
    intro r hpaint
    have hoptions : (r.apply step).options = r.options := r.options_after [step]
    have hrest := ih (r := r.apply step) (by rw [hoptions]; exact hpaint)
    -- the latest sighting is one of the later steps, or else one of the first
    rw [sightings_cons, List.getLast?_append, Option.map_or, Option.or_assoc, ← color_apply hpaint, ← hoptions]
    exact hrest

/-- Colours are exact. If executed instructions are not painted, the report of every run colours an address iff some
trace of it has been traced and found tainted or symbolic, and the colour is the one for conditional branches or the
other one, as the instruction decoded in the latest such trace is a conditional branch or not. -/
theorem colors_after_start (o : Options) (hpaint : o.paintExecuted = false) (image : Image) (steps : List Step)
    (address : UInt64) :
    let r := start o image
    ((∃ color, (address, color) ∈ (Report.of (r.after steps)).colors) ↔
      ∃ c ∈ r.calls steps, c.pc = address ∧ ∃ tainted symbolized constraint,
        c.run.2 = .traced tainted symbolized constraint ∧ (tainted = true ∨ symbolized = true)) ∧
      ∀ color, (address, color) ∈ (Report.of (r.after steps)).colors →
        ∃ c, (r.sightings address steps).getLast? = some c ∧
          color = if c.session.debugger.branchesAt address then o.colorCondition else o.colorTainted := by
  intro r
  have hcolor : (r.after steps).debugger.colors[address]? =
      (r.sightings address steps).getLast?.map (·.color o) := by
    rw [color_after steps hpaint]
    show Option.or _ none = _
    exact Option.or_none
  have hreport (color : UInt32) : (address, color) ∈ (Report.of (r.after steps)).colors ↔
      (r.sightings address steps).getLast?.map (·.color o) = some color := by
    rw [← hcolor]
    exact Std.TreeMap.mem_toList_iff_getElem?_eq_some
  refine ⟨?_, fun color hmem => ?_⟩
  · simp only [hreport, ← Option.isSome_iff_exists, Option.isSome_map, List.getLast?_isSome]
    simp only [ne_eq, List.eq_nil_iff_forall_not_mem, not_forall, not_not, mem_sightings]
  · obtain ⟨c, hlast, rfl⟩ := Option.map_eq_some_iff.1 ((hreport color).1 hmem)
    have hpc : c.pc = address := (mem_sightings.1 (List.mem_of_getLast? hlast)).2.1
    refine ⟨c, hlast, ?_⟩
    rw [Call.color, hpc]
    rfl

/-- The code of a tainted branch is replaced by a move of a tainted register: the address has the colour of what stood
there last. -/
theorem colors_after_rewritten_branch :
    let o : Options := {}
    let image : Image := { segments := [⟨0x1000, #[0x74, 0x05, 0x90], by decide⟩] }
    let steps : List Step := [.registers [("rip", 0x1000)], .taintRegister "rflags", .write 0x1000 [0x48, 0x89, 0xf8],
      .taintRegister "rdi"]
    o.paintExecuted = false ∧ (0x1000, o.colorTainted) ∈ (Report.of ((start o image).after steps)).colors := by
  intro o image steps
  obtain ⟨hiff, hcolors⟩ := colors_after_start o rfl image steps 0x1000
  have htraced : ∃ c ∈ (start o image).calls steps, c.pc = 0x1000 ∧ c.run.2 = .traced true false none := by
    decide +kernel
  have hbranches : ((start o image).sightings 0x1000 steps).map (·.session.debugger.branchesAt 0x1000) =
      [true, false] := by decide +kernel
  obtain ⟨c, hc, hpc, hrun⟩ := htraced
  obtain ⟨color, hmem⟩ := hiff.2 ⟨c, hc, hpc, true, false, none, hrun, .inl rfl⟩
  obtain ⟨last, hlast, hcolor⟩ := hcolors color hmem
  have hlatest := congrArg List.getLast? hbranches
  rw [List.getLast?_map, hlast] at hlatest
  have hbranch : last.session.debugger.branchesAt 0x1000 = false := Option.some.inj hlatest
  rw [hbranch, if_neg Bool.false_ne_true] at hcolor
  exact ⟨rfl, hcolor ▸ hmem⟩

end Replay

end TaintReplay
