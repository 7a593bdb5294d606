import TaintReplay.Proofs.Replay.Call
import TaintReplay.Proofs.Session.Halves

/-!
# Breakpoints and the actions that wait at them

Seen from one address, a replay is a `Trap`: the actions that wait there, and whether there is a breakpoint
(`Session.trap`). Traces leave it alone, a breakpoint that is hit fires the first of the actions, and a step does no
more to it than `Trap.apply` says (`trap_apply`), whatever there is at other addresses.
-/

namespace TaintReplay

/-- The actions that wait at one address, the oldest first, and whether there is a breakpoint. -/
structure Trap (α : Type) where
  waiting : List (PendingAction α)
  breaks : Bool

namespace Trap

variable {α : Type}

/-- The breakpoint is hit. The first action fires. If it owns the breakpoint both go, and else both stay. -/
def hit (t : Trap α) : Trap α :=
  match t.waiting with
  | [] => t
  | a :: waiting => if a.keepsBreakpoint then t else { waiting, breaks := false }

/-- One more action is to wait at the address. -/
def queue (t : Trap α) (address : UInt64) (action : α) : Trap α :=
  { waiting := t.waiting ++ [{ address, action, keepsBreakpoint := t.breaks }], breaks := true }

/-- What a step does to the trap of an address. -/
def apply (t : Trap RegisterSource) (address : UInt64) : Step → Trap RegisterSource
  | .event .processStart => { t with waiting := [] }
  | .event (.breakpoint _ pc) => if pc = address then t.hit else t
  | .setBreakpoint a => if a = address then { t with breaks := true } else t
  | .breakAndTaint a register => if a = address then t.queue address ⟨register⟩ else t
  | _ => t

end Trap

/-- The trap of an address. -/
def Control.trap {α : Type} (c : Control α) (address : UInt64) : Trap α :=
  ⟨c.pending.waiting address, c.breakpoints.contains address⟩

/-! ## What a session does to a trap -/

namespace Session

variable {α ε : Type} (s : Session α ε Recorder) (address : UInt64)

def trap : Trap α := s.control.trap address

section Analyzer

variable [Analyzer ε]

theorem trap_observe (thread pc : UInt64) : (s.observe thread pc).trap address = s.trap address :=
  congrArg (Control.trap · address) (s.control_observe thread pc)

theorem trap_onStep (thread pc : UInt64) (into : Bool) : (s.onStep thread pc into).trap address = s.trap address := by
  obtain ⟨_, h⟩ := s.exists_control_onStep_eq thread pc into
  rw [trap, h]
  rfl

theorem trap_onTrace (thread pc : UInt64) : (s.onTrace thread pc).trap address = s.trap address := by
  obtain ⟨_, _, _, _, _, _, _, h⟩ := s.exists_control_onTrace_eq thread pc
  rw [trap, h]
  rfl

end Analyzer

end Session

namespace Replay

open Session

variable (r : Replay) (address : UInt64)

/-- An action that fires arms tracing at most, and stays as it is. -/
theorem exists_control_fire_eq (a : PendingAction RegisterSource) (pc : UInt64) :
    (∃ armed, (r.fire a pc).1.control = { r.control with armed }) ∧ (r.fire a pc).2 = a := by
  unfold fire
  dsimp only [Action.fire]
  cases Analyzer.taintRegister r.analysis a.action.register with
  | ok tainted =>
    dsimp only
    rw [announce_eq]
    exact ⟨⟨_, rfl⟩, rfl⟩
  | error cause => exact ⟨⟨_, rfl⟩, rfl⟩

/-- The trace that a new source leads to leaves alone what runs the process. -/
theorem control_reanalyze_advance (analysis : Shadow) :
    (r.advance analysis).arm.reanalyze.1.control = { r.control with armed := true } := by
  rw [control_reanalyze, ← r.control_advance analysis]
  rfl

theorem hit_trap_of_take? {r : Replay} {a : PendingAction RegisterSource} {pending : ActionQueue RegisterSource}
    {pc : UInt64} (h : r.progress.pending.take? pc = some (a, pending)) :
    (r.trap pc).hit = if a.keepsBreakpoint then r.trap pc else ⟨pending.waiting pc, false⟩ := by
  have hwaiting : (r.trap pc).waiting = a :: pending.waiting pc := (ActionQueue.waiting_of_take? h).2.1
  rw [Trap.hit, hwaiting]

/-- At its own address a breakpoint springs the trap, and it leaves all others alone. -/
theorem trap_onBreakpoint (thread pc : UInt64) :
    (r.onBreakpoint thread pc).trap address = if pc = address then (r.trap address).hit else r.trap address := by
  unfold onBreakpoint
  cases hq : r.progress.pending.take? pc with
  | none =>
    have hhit : (r.trap pc).hit = r.trap pc := by
      have hwaiting : (r.trap pc).waiting = [] := ActionQueue.waiting_eq_nil_of_take? hq
      rw [Trap.hit, hwaiting]
    dsimp only
    split
    · rename_i hpc
      rw [← hpc, hhit]
      rfl
    · rfl
  | some taken =>
    obtain ⟨a, pending⟩ := taken
    obtain ⟨⟨_, hfired⟩, hsame⟩ := exists_control_fire_eq { r with progress := { r.progress with pending } } a pc
    dsimp only
    rw [hsame]
    generalize ht : Session.observe (_ : Replay) thread pc = t
    have htrap : t.trap address = ⟨pending.waiting address, r.debugger.breakpoints.contains address⟩ := by
      rw [← ht, trap_observe, trap, hfired]
      rfl
    obtain ⟨hwaiting, hbreaks⟩ := Trap.mk.inj htrap
    cases hk : a.keepsBreakpoint with
    | true =>
      have hback : (t.progress.pending.putBack a).waiting address = r.progress.pending.waiting address := by
        rw [← ActionQueue.waiting_putBack_of_take? hq, ActionQueue.waiting_putBack, ActionQueue.waiting_putBack]
        exact congrArg _ hwaiting
      have hkept : (if pc = address then (r.trap address).hit else r.trap address) = r.trap address := by
        split
        · rename_i hpc
          rw [← hpc, hit_trap_of_take? hq, if_pos hk]
        · rfl
      rw [hkept]
      exact congrArg₂ Trap.mk hback hbreaks
    | false =>
      have hgone := t.debugger.hasBreakpoint_removeBreakpoint pc address
      have hleft :
          Trap.mk (t.progress.pending.waiting address) ((t.debugger.removeBreakpoint pc).hasBreakpoint address) =
            if pc = address then (r.trap address).hit else r.trap address := by
        rw [hgone]
        split
        · rename_i hpc
          subst hpc
          rw [hit_trap_of_take? hq, hk]
          exact congrArg (Trap.mk · false) hwaiting
        · rename_i hpc
          have hother := (ActionQueue.waiting_of_take? hq).2.2 address (Ne.symm hpc)
          exact congrArg₂ Trap.mk (hwaiting.trans hother) hbreaks
      rw [← hleft, if_neg Bool.false_ne_true]
      split
      · rfl
      · rfl

theorem breakpoints_note (options : Options) (debugger : Recorder) (component : Component) (text : String) :
    (note options debugger component text).breakpoints = debugger.breakpoints := by
  unfold note
  split <;> rfl

theorem trap_handle (e : Event) : (r.handle e).trap address = (r.trap address).apply address (.event e) := by
  cases e with
  | processStart =>
    have hbreakpoints : (announceStart r.options r.debugger).breakpoints = r.debugger.breakpoints := by
      show (note _ (note _ _ _ _) _ _).breakpoints = _
      rw [breakpoints_note, breakpoints_note]
    show (r.onProcessStart).trap address = _
    rw [onProcessStart_eq]
    exact congrArg (fun breakpoints => Trap.mk [] (breakpoints.contains address)) hbreakpoints
  | processExit =>
    have hinform : (r.inform .events "[!] Process exiting...").trap address = r.trap address :=
      congrArg (Control.trap · address) (r.control_inform _ _)
    exact hinform
  | stepInto thread pc => exact r.trap_onStep address thread pc true
  | stepOver thread pc => exact r.trap_onStep address thread pc false
  | trace thread pc => exact r.trap_onTrace address thread pc
  | breakpoint thread pc => exact r.trap_onBreakpoint address thread pc

theorem trap_stoppedAt (e : Event) : (r.stoppedAt e).trap address = r.trap address := by
  unfold stoppedAt
  split <;> rfl

theorem trap_reanalyze_advance (analysis : Shadow) :
    (r.advance analysis).arm.reanalyze.1.trap address = r.trap address := by
  rw [trap, control_reanalyze_advance]
  rfl

/-- An action that is queued at an address finds a breakpoint there or sets one. -/
theorem trap_breakAndRun (pc : UInt64) (action : RegisterSource) : (r.breakAndRun pc action).trap address =
    if pc = address then (r.trap address).queue address action else r.trap address := by
  have hwaiting := r.progress.pending.waiting_register ⟨pc, action, r.debugger.hasBreakpoint pc⟩ address
  have hbreaks : (if r.debugger.hasBreakpoint pc then r.debugger else r.debugger.addBreakpoint pc).hasBreakpoint
      address = if pc = address then true else r.debugger.hasBreakpoint address := by
    cases hb : r.debugger.hasBreakpoint pc with
    | true =>
      rw [if_pos rfl]
      split
      · rename_i hpc
        rw [← hpc, hb]
      · rfl
    | false => exact r.debugger.hasBreakpoint_addBreakpoint pc address
  refine (congrArg₂ Trap.mk hwaiting hbreaks).trans ?_
  split
  · rename_i hpc
    subst hpc
    rfl
  · rw [List.append_nil]
    rfl

/-- What a step does to the trap of an address depends on this trap alone. -/
theorem trap_apply (step : Step) : (r.apply step).trap address = (r.trap address).apply address step := by
  cases step with
  | event e =>
    show (r.deliver e).trap address = _
    rw [deliver_eq, trap_handle, trap_stoppedAt]
  | registers values =>
    obtain ⟨registers, hregisters⟩ := exists_foldl_setRegister_eq values r.debugger
    unfold apply
    dsimp only
    rw [hregisters]
    rfl
  | write start bytes =>
    unfold apply
    dsimp only
    split <;> rfl
  | setBreakpoint a =>
    have hadded := r.debugger.hasBreakpoint_addBreakpoint a address
    show Trap.mk _ ((r.debugger.addBreakpoint a).hasBreakpoint address) = _
    rw [hadded, Trap.apply]
    split <;> rfl
  | breakAndTaint a register => exact r.trap_breakAndRun address a ⟨register⟩
  | taintRegister register =>
    unfold apply Session.taintRegister
    dsimp only
    cases Analyzer.taintRegister r.analysis register with
    | ok analysis => exact r.trap_reanalyze_advance address analysis
    | error cause => rfl
  | taintMemory start length => exact r.trap_reanalyze_advance address _
  | function _ | answer _ | enableStepTrace => rfl

end Replay

end TaintReplay
