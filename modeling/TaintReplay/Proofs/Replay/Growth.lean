import TaintReplay.Proofs.Replay.Colors
import TaintReplay.Proofs.Replay.PathLog
import TaintReplay.Proofs.Replay.Renaming
import TaintReplay.Proofs.Replay.Requests

/-!
# Reports only grow

What a report says about the requests, the questions and the addresses stays in the reports of all longer runs: every
step of a replay `Grows` it. What it says about the process `Continues` as well, until the process is started anew. Both
relations are kept by one step (`grows_apply`, `continues_apply`) and hold along a run by induction; `reports_grow` says
what follows for the reports.
-/

namespace TaintReplay

open Session

/-! ## Steps -/

theorem Drive.Counted.prefix_questions {d e : Drive} {limit? : Option Nat} {reply : Option Answer}
    (h : d.Counted limit? reply e) : d.questions <+: e.questions := by
  cases h with
  | ignored _ | within _ _ => exact List.prefix_refl _
  | confirmed _ _ _ | refused _ _ _ => exact List.prefix_append _ _

theorem Drive.Counted.total_le {d e : Drive} {limit? : Option Nat} {reply : Option Answer}
    (h : d.Counted limit? reply e) : d.total ≤ e.total := by
  cases h with
  | ignored _ => exact Nat.le_refl _
  | within _ _ | confirmed _ _ _ | refused _ _ _ => exact Nat.le_succ _

/-- Tagging a function takes no new name away. -/
theorem Names.keyed_tag (n : Names) (address : UInt64) : Keyed n.renames (n.tag address).renames := by
  unfold tag
  split
  · exact .refl _
  · dsimp only
    split
    · exact .refl _
    · exact .insert _ _ _

theorem Names.keyed_apply (n : Names) (found? : Option UInt64) (step : Step) :
    Keyed n.renames (n.apply found? step).renames := by
  by_cases hstart : step = .event .processStart
  · rw [hstart]
    exact .refl _
  · cases hfunction : step.function? with
    | some f =>
      cases step with
      | function g => exact .refl _
      | _ => cases hfunction
    | none =>
      rw [n.apply_eq found? hstart hfunction]
      cases found? with
      | none => exact .refl _
      | some address => exact n.keyed_tag address

namespace Session

/-- A trace that is made while there is a current instruction leaves one behind. -/
theorem isSome_current_trace {α : Type} (s : Session α Shadow Recorder) (pc thread : UInt64)
    (h : s.progress.current.isSome = true) : (s.trace pc thread).1.progress.current.isSome = true := by
  cases harmed : s.progress.armed with
  | false =>
    rw [trace_dormant s pc thread harmed]
    exact h
  | true =>
    cases hd : X86.decode (s.debugger.codeAt pc) with
    | none =>
      rw [trace_of_not_decode harmed hd]
      rfl
    | some d =>
      rw [trace_of_decode harmed hd, current_report]
      rfl

end Session

namespace Replay

/-- Painting takes no colour away. -/
theorem keyed_coat (o : Options) (executed : List UInt64) : ∀ colors : Std.TreeMap UInt64 UInt32,
    Keyed colors (coat o colors executed) := by
  unfold coat
  split
  · induction executed with
    | nil => exact .refl
    | cons pc executed ih =>
      intro colors
      exact .trans (.insert _ _ _) (ih _)
  · exact .refl

/-- The second session has all that the first one asked and showed. Colours and new names may have been replaced, and
comments have been added behind the ones that were there. -/
structure Grows (r t : Replay) : Prop where
  requests : r.drive.requests <+: t.drive.requests
  questions : r.drive.questions <+: t.drive.questions
  comments : Carried (· <+: ·) r.debugger.comments t.debugger.comments
  colors : Keyed r.debugger.colors t.debugger.colors
  renamed : Keyed r.debugger.renames t.debugger.renames

/-- The second session has found out all that the first one has. -/
structure Continues (r t : Replay) : Prop where
  constraints : r.progress.constraints <+: t.progress.constraints
  total : r.drive.total ≤ t.drive.total
  marked : r.progress.marked = true → t.progress.marked = true
  current : r.progress.current.isSome = true → t.progress.current.isSome = true

variable {r s t : Replay}

protected theorem Grows.refl (r : Replay) : r.Grows r where
  requests := List.prefix_refl _
  questions := List.prefix_refl _
  comments := .refl List.prefix_refl _
  colors := .refl _
  renamed := .refl _

theorem Grows.trans (h₁ : r.Grows s) (h₂ : s.Grows t) : r.Grows t where
  requests := h₁.requests.trans h₂.requests
  questions := h₁.questions.trans h₂.questions
  comments := h₁.comments.trans (fun _ _ _ => List.IsPrefix.trans) h₂.comments
  colors := h₁.colors.trans h₂.colors
  renamed := h₁.renamed.trans h₂.renamed

protected theorem Continues.refl (r : Replay) : r.Continues r := ⟨List.prefix_refl _, Nat.le_refl _, id, id⟩

theorem Continues.trans (h₁ : r.Continues s) (h₂ : s.Continues t) : r.Continues t where
  constraints := h₁.constraints.trans h₂.constraints
  total := h₁.total.trans h₂.total
  marked := h₂.marked ∘ h₁.marked
  current := h₂.current ∘ h₁.current

theorem prefix_questions_apply (r : Replay) (step : Step) : r.drive.questions <+: (r.apply step).drive.questions := by
  by_cases htrace : ∃ thread pc, step = .event (.trace thread pc)
  · obtain ⟨thread, pc, rfl⟩ := htrace
    exact (r.counted_trace thread pc).prefix_questions
  · have hkept : (r.apply step).drive.questions = r.drive.questions := by
      rw [drive_apply, Drive.questions_apply _ _ _ _ fun thread pc h => htrace ⟨thread, pc, h⟩]
    exact hkept ▸ List.prefix_refl _

theorem total_le_apply (r : Replay) {step : Step} (hstart : step ≠ .event .processStart) :
    r.drive.total ≤ (r.apply step).drive.total := by
  by_cases htrace : ∃ thread pc, step = .event (.trace thread pc)
  · obtain ⟨thread, pc, rfl⟩ := htrace
    exact (r.counted_trace thread pc).total_le
  · rw [drive_apply]
    by_cases henable : step = .enableStepTrace
    · rw [henable]
      exact Nat.le_refl _
    · exact (r.drive.idle_apply _ _ _ (fun thread pc h => htrace ⟨thread, pc, h⟩) hstart henable).total.ge

theorem Untraced.keyed {seeded : Bool} {executed : List UInt64} (h : r.Untraced seeded executed t) :
    Keyed r.debugger.colors t.debugger.colors := by
  rw [h.colors]
  exact keyed_coat r.options executed _

/-- No address loses its colour. -/
theorem keyed_apply (r : Replay) (step : Step) : Keyed r.debugger.colors (r.apply step).debugger.colors := by
  by_cases hstart : step = .event .processStart
  · have hcolors : (r.apply step).debugger.colors = r.debugger.colors :=
      hstart ▸ congrArg Shown.colors r.shown_processStart
    rw [hcolors]
    exact .refl _
  · refine (r.course_apply hstart).preserves (P := fun s => Keyed r.debugger.colors s.debugger.colors)
      (fun h hs => hs.trans h.keyed) (fun c hc => hc.trans ?_) (.refl _)
    obtain ⟨_, -, hshown⟩ := c.session.shown_trace c.pc c.thread
    have hcolors : c.run.1.debugger.colors = if c.run.2.finds then _ else _ := congrArg Shown.colors hshown
    rw [hcolors]
    split
    · exact .insert _ _ _
    · exact .refl _

/-- No comment is taken back. -/
theorem carried_apply (r : Replay) (step : Step) :
    Carried (· <+: ·) r.debugger.comments (r.apply step).debugger.comments := by
  by_cases hstart : step = .event .processStart
  · have hcomments : (r.apply step).debugger.comments = r.debugger.comments :=
      hstart ▸ congrArg Shown.comments r.shown_processStart
    rw [hcomments]
    exact .refl List.prefix_refl _
  · refine (r.course_apply hstart).preserves
      (P := fun s => Carried (· <+: ·) r.debugger.comments s.debugger.comments) (fun h hs => h.comments ▸ hs)
      (fun c hc => hc.trans (fun _ _ _ => List.IsPrefix.trans) ?_) (.refl List.prefix_refl _)
    obtain ⟨comments, hcarried, hshown⟩ := c.session.shown_trace c.pc c.thread
    have hcomments : c.run.1.debugger.comments = comments := congrArg Shown.comments hshown
    rw [hcomments]
    exact hcarried

theorem grows_apply (r : Replay) (step : Step) : r.Grows (r.apply step) where
  requests := by
    rw [requests_apply]
    exact List.prefix_append _ _
  questions := r.prefix_questions_apply step
  comments := r.carried_apply step
  colors := r.keyed_apply step
  renamed := by
    have hrenames : (r.apply step).debugger.renames = (r.names.apply (r.found? step) step).renames :=
      congrArg Names.renames (r.names_apply step)
    rw [hrenames]
    exact r.names.keyed_apply _ step

theorem continues_apply (r : Replay) {step : Step} (hstart : step ≠ .event .processStart) :
    r.Continues (r.apply step) where
  constraints := by
    rw [constraints_apply, if_neg hstart]
    exact List.prefix_append _ _
  total := r.total_le_apply hstart
  marked := (r.course_apply hstart).preserves (P := (·.progress.marked = true))
    (fun h hs => by rw [h.marked, hs, Bool.true_or]) fun c => c.session.marked_trace c.pc c.thread
  current := (r.course_apply hstart).preserves (P := (·.progress.current.isSome = true))
    (fun h hs => by rw [h.current, hs]) fun c => c.session.isSome_current_trace c.pc c.thread

/-! ## Runs -/

theorem grows_after (steps : List Step) : ∀ r : Replay, r.Grows (r.after steps) := by
  induction steps with
  | nil => exact .refl
  | cons step steps ih => exact fun r => (r.grows_apply step).trans (ih (r.apply step))

theorem continues_after (steps : List Step) (hstart : .event .processStart ∉ steps) :
    ∀ r : Replay, r.Continues (r.after steps) := by
  induction steps with
  | nil => exact .refl
  | cons step steps ih =>
    obtain ⟨hstep, hsteps⟩ := not_or.1 (List.mem_cons.not.1 hstart)
    exact fun r => (r.continues_apply (Ne.symm hstep)).trans (ih hsteps (r.apply step))

end Replay

/-! ## Reports -/

namespace Report

/-- The second report has all that the first one says about requests, questions and addresses. Each list of comments
begins with the one that was there, and no key of the colours, the comments and the new names has gone. -/
structure Extends (a b : Report) : Prop where
  requests : a.requests <+: b.requests
  questions : a.questions <+: b.questions
  comments : ∀ address before after, (address, before) ∈ a.comments → (address, after) ∈ b.comments → before <+: after
  commented : a.comments.map Prod.fst ⊆ b.comments.map Prod.fst
  colored : a.colors.map Prod.fst ⊆ b.colors.map Prod.fst
  renamed : a.renamed.map Prod.fst ⊆ b.renamed.map Prod.fst

/-- The second report has all that the first one says about the process. -/
structure Continues (a b : Report) : Prop where
  constraints : a.constraints <+: b.constraints
  total : a.total ≤ b.total
  marked : a.marked = true → b.marked = true
  last : a.last.isSome = true → b.last.isSome = true

/-- The addresses of a map are among those of a map that carries it on. -/
theorem keys_subset {ν : Type} {R : ν → ν → Prop} {m n : Std.TreeMap UInt64 ν} (h : Carried R m n) :
    m.toList.map Prod.fst ⊆ n.toList.map Prod.fst := by
  intro address hm
  obtain ⟨⟨_, x⟩, hx, rfl⟩ := List.mem_map.1 hm
  obtain ⟨y, hy, -⟩ := h _ x (Std.TreeMap.mem_toList_iff_getElem?_eq_some.1 hx)
  exact List.mem_map.2 ⟨(_, y), Std.TreeMap.mem_toList_iff_getElem?_eq_some.2 hy, rfl⟩

end Report

namespace Replay

variable {r t : Replay}

theorem Grows.report (h : r.Grows t) : (Report.of r).Extends (Report.of t) where
  requests := h.requests
  questions := h.questions
  comments address before after hbefore hafter := by
    obtain ⟨texts, htexts, hprefix⟩ := h.comments address before (Std.TreeMap.mem_toList_iff_getElem?_eq_some.1 hbefore)
    rw [Std.TreeMap.mem_toList_iff_getElem?_eq_some.1 hafter] at htexts
    rw [Option.some.inj htexts]
    exact hprefix
  commented := Report.keys_subset h.comments
  colored := Report.keys_subset h.colors
  renamed := Report.keys_subset h.renamed

theorem Continues.report (h : r.Continues t) : (Report.of r).Continues (Report.of t) :=
  ⟨h.constraints, h.total, h.marked, h.current⟩

/-- Reports only grow. The requests, the questions and the comments at every address begin with those that a shorter run
reports, and no address that was coloured, commented or renamed is missing. Unless the further steps start the process
anew, the constraints begin with those that were logged before, the total has not decreased, what was marked is marked,
and there is a last instruction if there was one. -/
theorem reports_grow (own : Option Options) (options : Options) (image : Image) (steps further : List Step) :
    let before := Report.of (run ⟨own, steps⟩ image options)
    let after := Report.of (run ⟨own, steps ++ further⟩ image options)
    before.Extends after ∧ (.event .processStart ∉ further → before.Continues after) := by
  intro before after
  let r := (start (own.getD options) image).after steps
  have hafter : after = Report.of (r.after further) := by
    have hsplit : (start (own.getD options) image).after (steps ++ further) = r.after further := List.foldl_append
    rw [← hsplit]
    rfl
  rw [hafter]
  exact ⟨(grows_after further r).report, fun hstart => (continues_after further hstart r).report⟩

end Replay

end TaintReplay
