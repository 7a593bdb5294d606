import TaintReplay.Proofs.Replay.Call

/-!
# Sessions do not leak into one another

Handling the start of a process forgets all but the options and the debugger. So two sessions with the same options,
whatever their analyses and their progress, go the same way from there: `trajectory_processStart` compares, after every
further step, what its trace gave and the whole session with all that it did to the debugger.
-/

namespace TaintReplay

open Session

namespace Replay

/-- The replay with another debugger. -/
def onto (r : Replay) (debugger : Recorder) : Replay := { r with debugger }

/-- What there is to see of a run: after each step, what its trace gave, and the session. Before each step the world may
change the debugger. -/
def trajectory : Replay → List ((Recorder → Recorder) × Step) → List (Option Outcome × Replay)
  | _, [] => []
  | r, (world, step) :: steps =>
    let r := r.onto (world r.debugger)
    ((r.call? step).map (·.run.2), r.apply step) :: trajectory (r.apply step) steps

/-- Two sessions with the same options cannot be told apart after the start of a process, whatever was before: neither
if their debuggers are the same then, nor if they are made the same afterwards. -/
theorem trajectory_processStart (options : Options) (a₁ a₂ : Shadow) (p₁ p₂ : Progress RegisterSource)
    (debugger debugger₁ debugger₂ : Recorder) (steps : List ((Recorder → Recorder) × Step)) :
    trajectory (deliver ⟨options, a₁, debugger, p₁⟩ .processStart) steps =
        trajectory (deliver ⟨options, a₂, debugger, p₂⟩ .processStart) steps ∧
      trajectory ((deliver ⟨options, a₁, debugger₁, p₁⟩ .processStart).onto debugger) steps =
        trajectory ((deliver ⟨options, a₂, debugger₂, p₂⟩ .processStart).onto debugger) steps := by
  simp only [deliver_processStart, restarted, onto, and_self]

end Replay

end TaintReplay
