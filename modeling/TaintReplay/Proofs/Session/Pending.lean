import TaintReplay.Session.Command
import TaintReplay.Session.Event

/-!
# What leaves the queue alone

Neither a trace nor what is done around it touches the actions that wait (`pending_trace`, `pending_onStep`,
`pending_onTrace`), whatever the analysis and the debugger are. A breakpoint fires the first action of its address
(`onBreakpoint_of_take?`), and changes the queue no further than that this action goes or is put back
(`pending_fireAt`).
-/

namespace TaintReplay

namespace Session

variable {α ε η : Type}

section Report

variable [Debugger η] (s : Session α ε η)

@[simp] theorem pending_inform (component : Component) (text : String) :
    (s.inform component text).progress.pending = s.progress.pending := by
  unfold inform
  split <;> rfl

@[simp] theorem pending_detail (component : Component) (text : String) :
    (s.detail component text).progress.pending = s.progress.pending := by
  unfold detail
  split <;> rfl

@[simp] theorem pending_paint (pc : UInt64) : (s.paint pc).progress.pending = s.progress.pending := by
  unfold paint
  split <;> rfl

@[simp] theorem pending_tagFunction (address : UInt64) :
    (s.tagFunction address).progress.pending = s.progress.pending := by
  unfold tagFunction
  split
  · rfl
  · split
    · rfl
    · dsimp only
      split
      · rfl
      · simp

@[simp] theorem pending_highlight (i : Instruction) : (s.highlight i).progress.pending = s.progress.pending := by
  unfold highlight
  split
  · dsimp only
    generalize ht : (Session.inform _ _ _ : Session α ε η) = t
    have hpending : t.progress.pending = s.progress.pending := by
      rw [← ht]
      exact pending_inform _ _ _
    split
    · exact (t.pending_tagFunction i.address).trans hpending
    · exact hpending
  · rfl

@[simp] theorem pending_stepOn : s.stepOn.progress.pending = s.progress.pending := by
  unfold stepOn
  split
  · split
    · rfl
    · split <;> rfl
  · rfl

theorem pending_askAtLimit (limit : Nat) : (s.askAtLimit limit).progress.pending = s.progress.pending := by
  unfold askAtLimit
  split
  · dsimp only
    split <;> rfl
  · rfl

end Report

section Trace

variable [Analyzer ε] [Debugger η] (s : Session α ε η)

@[simp] theorem pending_comments (i : Instruction) :
    ((s.commentControlled i).commentExpressions i).progress.pending = s.progress.pending := by
  unfold commentExpressions commentControlled
  dsimp only
  split <;> split <;> rfl

@[simp] theorem pending_recordBranch (i : Instruction) :
    (s.recordBranch i).1.progress.pending = s.progress.pending := by
  unfold recordBranch
  split
  · rfl
  · dsimp only
    split <;> simp [say]

@[simp] theorem pending_report (i : Instruction) : (s.report i).1.progress.pending = s.progress.pending := by
  unfold report
  dsimp only
  split <;> simp [setCurrent]

@[simp] theorem pending_trace (pc thread : UInt64) : (s.trace pc thread).1.progress.pending = s.progress.pending := by
  unfold trace
  split
  · dsimp only
    split
    · rfl
    · split
      · rfl
      · split
        · simp [abandon, say, setCurrent]
        · simp [advance, setCurrent]
  · rfl

@[simp] theorem pending_observe (thread pc : UInt64) :
    (s.observe thread pc).progress.pending = s.progress.pending := by
  simp [observe]

@[simp] theorem pending_reanalyze : s.reanalyze.1.progress.pending = s.progress.pending := by
  unfold reanalyze
  split
  · rfl
  · simp

theorem pending_onStep (thread pc : UInt64) (into : Bool) :
    (s.onStep thread pc into).progress.pending = s.progress.pending := by
  unfold onStep
  split
  · simp
  · split <;> simp

theorem pending_onTrace (thread pc : UInt64) : (s.onTrace thread pc).progress.pending = s.progress.pending := by
  unfold onTrace
  split
  · rfl
  · dsimp only
    split <;> simp [pending_askAtLimit]

end Trace

/-! ## What breakpoints do to the queue -/

@[simp] theorem pending_fire [Action α ε η] (s : Session α ε η) (a : PendingAction α) (pc : UInt64) :
    (s.fire a pc).1.progress.pending = s.progress.pending := by
  unfold fire
  dsimp only
  split <;> rfl

section Hit

variable [Analyzer ε] [Debugger η] [Action α ε η] (s : Session α ε η)

/-- An action fires at its breakpoint, and `rest` waits on: the instruction is traced, and either the action is put back
or its breakpoint goes and the process moves on. -/
def fireAt (a : PendingAction α) (rest : ActionQueue α) (thread pc : UInt64) : Session α ε η :=
  let (s, a) := { s with progress := { s.progress with pending := rest } }.fire a pc
  let s := s.observe thread pc
  if a.keepsBreakpoint then
    { s with progress := { s.progress with pending := s.progress.pending.putBack a, autoContinue := false } }
  else
    let s := { s with debugger := Debugger.removeBreakpoint s.debugger pc }
    if s.options.stepAfterAction then ((s.setAutoContinue true).request .stepInto).request .runRequests
    else s.request .resume

theorem onBreakpoint_of_take? {a : PendingAction α} {rest : ActionQueue α} {pc : UInt64}
    (h : s.progress.pending.take? pc = some (a, rest)) (thread : UInt64) :
    s.onBreakpoint thread pc = s.fireAt a rest thread pc := by
  unfold onBreakpoint
  rw [h]
  rfl

theorem onBreakpoint_of_take?_eq_none {pc : UInt64} (h : s.progress.pending.take? pc = none) (thread : UInt64) :
    s.onBreakpoint thread pc = s.setAutoContinue false := by
  unfold onBreakpoint
  rw [h]

theorem pending_fireAt (a : PendingAction α) (rest : ActionQueue α) (thread pc : UInt64) :
    (s.fireAt a rest thread pc).progress.pending =
      if a.keepsBreakpoint then rest.putBack (s.fire a pc).2 else rest := by
  have hfired : ({ s with progress := { s.progress with pending := rest } }.fire a pc).2 = (s.fire a pc).2 := rfl
  have hkeeps : (s.fire a pc).2.keepsBreakpoint = a.keepsBreakpoint := rfl
  unfold fireAt
  dsimp only
  rw [hfired, hkeeps]
  split
  · simp
  · split <;> simp [request, setAutoContinue]

end Hit

end Session

end TaintReplay
