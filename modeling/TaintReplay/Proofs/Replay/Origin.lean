import TaintReplay.Proofs.Replay.Course
import TaintReplay.Proofs.Replay.History

/-!
# Where findings come from

A session is marked iff something has become a source since the process started last (`Sourced`), and as long as it is
not marked it is `Blank`: there is no taint, no expression and no constraint, and tracing is not armed. Both hold in
every state of a run (`marked_after_iff_sourced`), since a step that does not start the process marks the session iff it
makes something a source (`marked_apply`).
-/

namespace TaintReplay

open Session

namespace Replay

/-- Nothing has been found out, and tracing is not armed. -/
structure Blank (r : Replay) : Prop where
  taint : ∀ c, r.analysis.isTainted c = false
  symbols : ∀ c, r.analysis.isSymbolic c = false
  expressions : r.analysis.expressions = #[]
  constraints : r.progress.constraints = []
  armed : r.progress.armed = false

/-- Something has become a source in the run, and the process has not started since. -/
def Sourced (r : Replay) : List Step → Prop :=
  Since (fun before step => (r.after before).seeds step = true) (· = .event .processStart)

theorem blank_start (options : Options) (image : Image) : (start options image).Blank := by
  refine ⟨fun c => ?_, fun c => ?_, rfl, rfl, rfl⟩
  · simp [start, Shadow.isTainted]
  · simp [start, Shadow.isSymbolic]

theorem blank_processStart (r : Replay) : (r.deliver .processStart).Blank := by
  rw [deliver_processStart]
  refine ⟨fun c => ?_, fun c => ?_, rfl, rfl, rfl⟩
  · simp [restarted, Shadow.fresh, Shadow.isTainted]
  · simp [restarted, Shadow.fresh, Shadow.isSymbolic]

theorem Blank.untraced {r t : Replay} {executed : List UInt64} (h : r.Blank) (ht : r.Untraced false executed t) :
    t.Blank where
  taint := by rw [ht.analysis rfl]; exact h.taint
  symbols := by rw [ht.analysis rfl]; exact h.symbols
  expressions := by rw [ht.analysis rfl, h.expressions]
  constraints := ht.constraints.trans h.constraints
  armed := ht.dormant h.armed

/-! ## Steps -/

section Step

variable {r : Replay} {step : Step} (hstep : step ≠ .event .processStart)
include hstep

/-- A step marks the session iff it makes something a source. The trace of an unmarked session cannot, for it is not
armed. -/
theorem marked_apply (hr : r.progress.marked = false → r.Blank) :
    (r.apply step).progress.marked = (r.progress.marked || r.seeds step) := by
  have hcourse := r.course_apply hstep
  cases hm : r.progress.marked || r.seeds step with
  | false =>
    obtain ⟨hmarked, hseeds⟩ := Bool.or_eq_false_iff.1 hm
    rw [hseeds] at hcourse
    rw [(hcourse.untraced (hr hmarked).armed).marked, hmarked]
    rfl
  | true =>
    cases hc : r.call? step with
    | none =>
      rw [hc] at hcourse
      cases hcourse with
      | quiet h => rw [h.marked, hm]
    | some c =>
      rw [hc] at hcourse
      cases hcourse with
      | trace h hk =>
        rw [hk.marked, Bool.or_false]
        exact c.session.marked_trace c.pc c.thread (h.marked.trans hm)

/-- A session that a step does not mark was blank before and is so still. -/
theorem blank_apply (hr : r.progress.marked = false → r.Blank) (ht : (r.apply step).progress.marked = false) :
    (r.apply step).Blank := by
  rw [marked_apply hstep hr] at ht
  obtain ⟨hmarked, hseeds⟩ := Bool.or_eq_false_iff.1 ht
  have hcourse := r.course_apply hstep
  rw [hseeds] at hcourse
  exact (hr hmarked).untraced (hcourse.untraced (hr hmarked).armed)

end Step

/-! ## Runs -/

/-- The mark is exact, and nothing comes from nowhere. In every state of a run the session is marked iff something has
become a source since the process started last, or since the run began if it has not started yet; and while the session
is not marked there is no taint, no expression and no constraint, and tracing is not armed. -/
theorem marked_after_iff_sourced (options : Options) (image : Image) (steps : List Step) :
    let r := start options image
    ((r.after steps).progress.marked = true ↔ r.Sourced steps) ∧
      ((r.after steps).progress.marked = false → (r.after steps).Blank) := by
  intro r
  induction steps using List.reverseRecOn with
  | nil => exact ⟨iff_of_false Bool.false_ne_true not_since_nil, fun _ => blank_start options image⟩
  | append_singleton steps step ih =>
    obtain ⟨hmarked, hblank⟩ := ih
    have hsourced : r.Sourced (steps ++ [step]) ↔
        (r.after steps).seeds step = true ∨ step ≠ .event .processStart ∧ r.Sourced steps :=
      since_append_singleton steps step
    rw [after_append_singleton, hsourced]
    by_cases hstep : step = .event .processStart
    · have hstart : (r.after steps).apply step = (r.after steps).deliver .processStart := by rw [hstep]; rfl
      rw [hstart]
      refine ⟨?_, fun _ => blank_processStart _⟩
      rw [deliver_processStart, hstep]
      simp [restarted, seeds, eventSeeds]
    · refine ⟨?_, blank_apply hstep hblank⟩
      rw [marked_apply hstep hblank, Bool.or_eq_true, hmarked, or_comm]
      exact or_congr_right (and_iff_right hstep).symm

end Replay

end TaintReplay
