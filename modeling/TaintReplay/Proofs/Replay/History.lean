import Mathlib.Data.List.Induction
import TaintReplay.Replay

/-!
# The history of a run

The steps of a run, each with the session that it meets, are its `Replay.moments`. Much of what holds after a run holds
because some step has brought it about and no later one has ended it (`Replay.Since`). A run with one more step has such
a step iff it is the last one, or the run without it has one and the last does not end it (`since_append_singleton`),
which is the step of an induction over the run from its end.
-/

namespace TaintReplay.Replay

variable {happens : List Step → Step → Prop} {ends : Step → Prop}

/-- Some step of a run has done what `happens` says, which looks at the steps before it too, and no later step has ended
it. -/
def Since (happens : List Step → Step → Prop) (ends : Step → Prop) (steps : List Step) : Prop :=
  ∃ before step later, steps = before ++ step :: later ∧ happens before step ∧ ∀ s ∈ later, ¬ends s

theorem not_since_nil : ¬Since happens ends [] := by
  rintro ⟨before, step, later, heq, -⟩
  simp at heq

theorem since_append_singleton (steps : List Step) (step : Step) :
    Since happens ends (steps ++ [step]) ↔ happens steps step ∨ ¬ends step ∧ Since happens ends steps := by
  constructor
  · rintro ⟨before, cause, later, heq, hcause, hlater⟩
    rcases List.eq_nil_or_concat later with rfl | ⟨later, last, rfl⟩
    · obtain ⟨hbefore, hlast⟩ := List.append_inj' heq rfl
      rw [hbefore, List.singleton_inj.1 hlast]
      exact .inl hcause
    · have hsplit : steps ++ [step] = (before ++ cause :: later) ++ [last] := by simpa using heq
      obtain ⟨hsteps, hlast⟩ := List.append_inj' hsplit rfl
      rw [List.concat_eq_append, List.forall_mem_append] at hlater
      rw [List.singleton_inj.1 hlast]
      exact .inr ⟨hlater.2 last (List.mem_singleton_self last), before, cause, later, hsteps, hcause, hlater.1⟩
  · rintro (hcause | ⟨hstep, before, cause, later, rfl, hcause, hlater⟩)
    · exact ⟨steps, step, [], rfl, hcause, fun _ hs => nomatch hs⟩
    · refine ⟨before, cause, later ++ [step], by simp, hcause, ?_⟩
      intro s hs
      rcases List.mem_append.1 hs with hs | hs
      · exact hlater s hs
      · rw [List.mem_singleton.1 hs]
        exact hstep

theorem after_append_singleton (r : Replay) (steps : List Step) (step : Step) :
    r.after (steps ++ [step]) = (r.after steps).apply step := by
  simp [after]

/-- The steps of a run, each with the session that it meets. -/
def moments : Replay → List Step → List (Replay × Step)
  | _, [] => []
  | r, step :: steps => (r, step) :: moments (r.apply step) steps

theorem moments_append_singleton (steps : List Step) (step : Step) : ∀ r : Replay,
    r.moments (steps ++ [step]) = r.moments steps ++ [(r.after steps, step)] := by
  induction steps with
  | nil => exact fun r => rfl
  | cons first steps ih => exact fun r => congrArg ((r, first) :: ·) (ih (r.apply first))

end TaintReplay.Replay
