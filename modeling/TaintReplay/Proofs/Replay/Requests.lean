import TaintReplay.Proofs.Replay.Drive
import TaintReplay.Proofs.Replay.History

/-!
# What the debugger is asked for

Each step asks the debugger for something or for nothing: `Replay.requested` says for what, and the requests of a run
are those of its steps, one behind the other (`requests_after`). Whether stepping goes on by itself can be read off the
run as well: it does iff the option is on, and the latest of all starts of the process and hits of a breakpoint was the
hit of a breakpoint whose action owned it (`Replay.Moving`, `autoContinue_after_iff`).
-/

namespace TaintReplay

namespace Session

variable {α ε : Type} (s : Session α ε Recorder)

theorem switchesMode_iff : s.switchesMode = true ↔ ∃ i, s.progress.current = some i ∧ s.options.modeSwitch ≠ "" ∧
    s.options.modeSwitch.toList <:+: i.text.toList := by
  unfold switchesMode
  cases s.progress.current with
  | none => simp
  | some i => simp [atModeSwitch, occursIn, occursInList_iff]

end Session

namespace Replay

open Session

/-- Does the step ask the user whether to go on, and is the answer not yes? -/
def refused (r : Replay) (step : Step) : Bool := (r.reply? step).any (· ≠ .yes)

/-- What a step asks the debugger for. -/
def requested (r : Replay) (step : Step) : List Request :=
  match step with
  | .event .processStart => [.clearRequests]
  | .event (.stepInto _ _) | .event (.stepOver _ _) =>
    if r.progress.autoContinue then [if (r.apply step).switchesMode then .stepOver else .stepInto] else []
  | .event (.trace _ _) => if r.refused step then [.disableStepTrace, .suspend] else []
  | .event (.breakpoint _ _) =>
    if r.springs step then if r.options.stepAfterAction then [.stepInto, .runRequests] else [.resume] else []
  | .enableStepTrace => [.enableStepTrace]
  | _ => []

/-- Starts of the process and hits of a breakpoint decide whether stepping goes on by itself. -/
def steers : Step → Prop
  | .event .processStart | .event (.breakpoint _ _) => True
  | _ => False

/-- The latest step of the run that `steers` was the hit of a breakpoint whose action owned it. -/
def Moving (r : Replay) : List Step → Prop := Since (fun before step => (r.after before).springs step = true) steers

/-! ## Steps -/

theorem requests_goOn (d : Drive) (switches : Bool) : (d.goOn switches).requests =
    d.requests ++ if d.autoContinue then [if switches then Request.stepOver else .stepInto] else [] := by
  unfold Drive.goOn
  split
  · rfl
  · exact (List.append_nil _).symm

theorem requests_hit (d : Drive) (springs steps : Bool) : (d.hit springs steps).requests =
    d.requests ++ if springs then if steps then [Request.stepInto, .runRequests] else [.resume] else [] := by
  unfold Drive.hit
  split
  · split <;> rfl
  · exact (List.append_nil _).symm

theorem requests_of_counted {d e : Drive} {limit? : Option Nat} {reply : Option Answer}
    (h : d.Counted limit? reply e) : e.requests =
      d.requests ++ if reply.any (· ≠ .yes) then [Request.disableStepTrace, .suspend] else [] := by
  cases h with
  | ignored _ | within _ _ | confirmed _ _ _ => exact (List.append_nil _).symm
  | refused _ _ hno =>
    rw [Option.any_some, if_pos (decide_eq_true hno)]

variable (r : Replay) (step : Step)

theorem requests_apply : (r.apply step).drive.requests = r.drive.requests ++ r.requested step := by
  cases step with
  | event e =>
    cases e with
    | processStart => rw [drive_apply]; rfl
    | stepInto thread pc => rw [drive_apply]; exact requests_goOn _ _
    | stepOver thread pc => rw [drive_apply]; exact requests_goOn _ _
    | trace thread pc => exact requests_of_counted (r.counted_trace thread pc)
    | breakpoint thread pc => rw [drive_apply]; exact requests_hit _ _ _
    | processExit => rw [drive_apply]; exact (List.append_nil _).symm
  | enableStepTrace => rw [drive_apply]; rfl
  | _ => rw [drive_apply]; exact (List.append_nil _).symm

theorem autoContinue_of_counted {d e : Drive} {limit? : Option Nat} {reply : Option Answer}
    (h : d.Counted limit? reply e) : e.autoContinue = d.autoContinue := by
  cases h <;> rfl

theorem autoContinue_hit (d : Drive) (springs steps : Bool) :
    (d.hit springs steps).autoContinue = (springs && (steps || d.autoContinue)) := by
  cases springs <;> cases steps <;> rfl

theorem steers_of_springs {r : Replay} {step : Step} (h : r.springs step = true) : steers step := by
  unfold springs at h
  split at h
  · exact trivial
  · cases h

/-- The hit of a breakpoint whose action owns it lets stepping go on if the option is on, and any other hit, or a start
of the process, ends it. -/
theorem autoContinue_apply_of_steers {step : Step} (h : steers step) : (r.apply step).drive.autoContinue =
    (r.springs step && (r.options.stepAfterAction || r.drive.autoContinue)) := by
  rw [drive_apply]
  unfold steers at h
  split at h
  · rfl
  · exact autoContinue_hit _ _ _
  · cases h

theorem autoContinue_apply_of_not_steers {step : Step} (h : ¬steers step) :
    (r.apply step).drive.autoContinue = r.drive.autoContinue := by
  cases step with
  | event e =>
    cases e with
    | processStart | breakpoint _ _ => exact absurd trivial h
    | trace thread pc => exact autoContinue_of_counted (r.counted_trace thread pc)
    | stepInto _ _ | stepOver _ _ =>
      rw [drive_apply]
      show (r.drive.goOn _).autoContinue = _
      unfold Drive.goOn
      split <;> rfl
    | processExit => rw [drive_apply]; rfl
  | _ => rw [drive_apply]; rfl

/-! ## Runs -/

/-- The requests of a run are those of its steps. -/
theorem requests_after (steps : List Step) : ∀ r : Replay, (r.after steps).drive.requests =
    r.drive.requests ++ (r.moments steps).flatMap fun m => m.1.requested m.2 := by
  induction steps with
  | nil => exact fun r => (List.append_nil _).symm
  | cons step steps ih =>
    intro r
    calc ((r.apply step).after steps).drive.requests
        = (r.apply step).drive.requests ++ ((r.apply step).moments steps).flatMap fun m => m.1.requested m.2 :=
          ih (r.apply step)
      _ = r.drive.requests ++ (r.requested step ++
            ((r.apply step).moments steps).flatMap fun m => m.1.requested m.2) := by
          rw [requests_apply, List.append_assoc]

theorem autoContinue_after_iff (options : Options) (image : Image) (steps : List Step) :
    let r := start options image
    (r.after steps).drive.autoContinue = true ↔ options.stepAfterAction = true ∧ r.Moving steps := by
  intro r
  induction steps using List.reverseRecOn with
  | nil => exact iff_of_false Bool.false_ne_true fun h => not_since_nil h.2
  | append_singleton steps step ih =>
    have hmoving : r.Moving (steps ++ [step]) ↔
        (r.after steps).springs step = true ∨ ¬steers step ∧ r.Moving steps := since_append_singleton steps step
    have hoptions : (r.after steps).options = options := r.options_after steps
    rw [after_append_singleton, hmoving]
    by_cases hsteers : steers step
    · rw [autoContinue_apply_of_steers _ hsteers, hoptions, Bool.and_eq_true, Bool.or_eq_true, ih]
      tauto
    · have hsprings : ¬(r.after steps).springs step = true := fun h => hsteers (steers_of_springs h)
      rw [autoContinue_apply_of_not_steers _ hsteers, ih]
      tauto

/-- What the debugger is asked for is determined by the history. In every state of a run stepping goes on by itself iff
the option is on, and the latest of the starts of the process and the hits of a breakpoint was a hit whose action owned
the breakpoint. The requests are those of the steps, one behind the other, where a step into or over an instruction asks
for a step over iff there is a current instruction behind it whose text holds the pattern of a mode switch, and there is
such a pattern. -/
theorem requests_after_start (options : Options) (image : Image) (steps : List Step) :
    let r := start options image
    ((r.after steps).progress.autoContinue = true ↔ options.stepAfterAction = true ∧ r.Moving steps) ∧
      (r.after steps).debugger.requests.toList = ((r.moments steps).flatMap fun m => m.1.requested m.2) ∧
      ∀ s : Replay, s.switchesMode = true ↔ ∃ i, s.progress.current = some i ∧ s.options.modeSwitch ≠ "" ∧
        s.options.modeSwitch.toList <:+: i.text.toList := by
  intro r
  exact ⟨autoContinue_after_iff options image steps, requests_after steps r, fun s => s.switchesMode_iff⟩

end Replay

end TaintReplay
