import TaintReplay.Proofs.Session.Trace
import TaintReplay.Replay

/-!
# The traces of a replay

A step of a replay makes at most one trace: `Replay.call?` is that `Call`, with the session as it is just before.
`turn_apply` says all that a step does to options, analysis and log: a start of the process begins anew
(`deliver_processStart`), a step without a call may add sources, and a step with a call adds sources, traces, and leaves
it at that. `Replay.calls` are the calls of a whole run, and `Kept.after` is the induction over a run: what the start of
a process, sources and traces keep holds before every call and at the end.
-/

namespace TaintReplay

open Text

/-- The analysis at the start of a process: no marks and no expressions, and the switches as the options want them. -/
def Shadow.fresh (o : Options) : Shadow := { taintOn := o.useTaint, symbolicOn := o.useSymbols }

namespace Session

/-- The later session has the options and the log of the earlier one; the analysis may have more sources. -/
structure Prepares {α η : Type} (s t : Session α Shadow η) : Prop where
  options : t.options = s.options
  analysis : s.analysis.Seeded t.analysis
  constraints : t.progress.constraints = s.progress.constraints

section Prepares

variable {α η : Type} {s t u : Session α Shadow η}

theorem Keeps.prepares (h : s.Keeps t) : s.Prepares t := ⟨h.options, h.analysis ▸ .refl _, h.constraints⟩

theorem Prepares.trans (h₁ : s.Prepares t) (h₂ : t.Prepares u) : s.Prepares u :=
  ⟨h₂.options.trans h₁.options, h₁.analysis.trans h₂.analysis, h₂.constraints.trans h₁.constraints⟩

theorem Prepares.keeps (h : s.Prepares t) (hk : t.Keeps u) : s.Prepares u :=
  ⟨hk.options.trans h.options, hk.analysis ▸ h.analysis, hk.constraints.trans h.constraints⟩

end Prepares

section Event

variable {α ε η : Type} [Debugger η] {s t : Session α ε η}

theorem Keeps.paint (h : s.Keeps t) (pc : UInt64) : s.Keeps (t.paint pc) := .ite (h.debug _) h

theorem Keeps.stepOn (h : s.Keeps t) : s.Keeps t.stepOn := by
  unfold Session.stepOn
  split
  · split
    · exact .debug (h.debug _) _
    · exact .ite (.debug (h.debug _) _) (h.debug _)
  · exact h

theorem Keeps.askAtLimit (h : s.Keeps t) (limit : Nat) : s.Keeps (t.askAtLimit limit) := by
  unfold Session.askAtLimit
  split
  · dsimp only
    split
    · exact ⟨h.options, h.analysis, h.constraints⟩
    · refine .debug (.count (.debug (.debug (h.debug _) _) _) ?_) _
      rfl
  · exact h

end Event

end Session

open Session

namespace Replay

/-! ## Starts of the process -/

/-- The debugger after a line of information, which is written only if it is wanted. -/
def note (options : Options) (debugger : Recorder) (component : Component) (text : String) : Recorder :=
  if options.showInfo then debugger.say ⟨.info, component, text⟩ else debugger

theorem inform_eq (r : Replay) (component : Component) (text : String) :
    r.inform component text = { r with debugger := note r.options r.debugger component text } := by
  unfold inform note
  split <;> rfl

/-- What handling the start of a process does to the debugger: it writes two lines and drops the requests that wait. -/
def announceStart (options : Options) (debugger : Recorder) : Recorder :=
  let debugger := note options debugger .events "[+] Starting the debugged process. Resetting all the engines."
  (note options debugger .session "[+] Restarting engines...").request .clearRequests

/-- The session at the start of a process: the analysis and the progress begin anew. -/
def restarted (options : Options) (debugger : Recorder) : Replay :=
  { options, analysis := .fresh options, debugger := announceStart options debugger }

/-- Handling the start of a process forgets all but the options and the debugger. -/
theorem onProcessStart_eq (r : Replay) : r.onProcessStart = restarted r.options r.debugger := by
  rw [onProcessStart, restart, inform_eq, inform_eq]
  rfl

theorem deliver_processStart (r : Replay) : r.deliver .processStart = restarted r.options r.debugger :=
  r.onProcessStart_eq

/-! ## Calls -/

/-- One trace: the session just before it, and the instruction to be traced. -/
structure Call where
  session : Replay
  pc : UInt64
  thread : UInt64

/-- The session after the trace, and its outcome. -/
def Call.run (c : Call) : Replay × Outcome := c.session.trace c.pc c.thread

namespace Call

variable (c : Call) (d : X86.Instruction) (i : Instruction)

/-- The trace looks at this decoded instruction. -/
structure Examines : Prop where
  armed : c.session.progress.armed = true
  examined : c.session.examine c.pc c.thread = some (d, i)

/-- The shadow step of the instruction, in the state and with the registers just before the trace. -/
def stepped : Shadow × Instruction := c.session.analysis.step d i c.session.debugger.register

variable {c d i}

/-- A trace that examines an instruction takes over its step. -/
theorem Examines.run (h : c.Examines d i) :
    c.run.2 = .traced (c.stepped d i).2.tainted (c.stepped d i).2.symbolized
        (reportedConstraint (c.stepped d i).1 (c.stepped d i).2) ∧
      Logs { c.session with analysis := (c.stepped d i).1 } (reportedConstraint (c.stepped d i).1 (c.stepped d i).2)
        c.run.1 :=
  c.session.trace_examined c.pc c.thread h.armed h.examined

/-- A trace that examines nothing gives nothing and changes nothing that matters. -/
theorem unexamined (h : ∀ d i, ¬c.Examines d i) : c.run.2.isTraced = false ∧ c.session.Keeps c.run.1 := by
  unfold run
  cases ha : c.session.progress.armed with
  | false =>
    rw [c.session.trace_dormant c.pc c.thread ha]
    exact ⟨rfl, .refl _⟩
  | true =>
    have he : c.session.examine c.pc c.thread = none := by
      cases he : c.session.examine c.pc c.thread with
      | none => rfl
      | some found => exact absurd ⟨ha, he⟩ (h found.1 found.2)
    obtain ⟨cause, hcause, hk⟩ := c.session.trace_unexamined c.pc c.thread ha he
    exact ⟨by rw [hcause]; rfl, hk⟩

theorem examines_or_unexamined (c : Call) : (∃ d i, c.Examines d i) ∨ ∀ d i, ¬c.Examines d i := by
  by_cases h : ∃ d i, c.Examines d i
  · exact .inl h
  · exact .inr fun d i hdi => h ⟨d, i, hdi⟩

/-- Whatever a trace reports comes from the step of the instruction that it examines. -/
theorem examines_of_traced {tainted symbolized : Bool} {constraint : Option PathConstraint}
    (h : c.run.2 = .traced tainted symbolized constraint) : ∃ d i, c.Examines d i ∧
      tainted = (c.stepped d i).2.tainted ∧ symbolized = (c.stepped d i).2.symbolized ∧
      constraint = reportedConstraint (c.stepped d i).1 (c.stepped d i).2 := by
  rcases c.examines_or_unexamined with ⟨d, i, hdi⟩ | hnone
  · have hrun := hdi.run.1
    rw [h] at hrun
    obtain ⟨ht, hs, hk⟩ := Outcome.traced.inj hrun
    exact ⟨d, i, hdi, ht, hs, hk⟩
  · have huntraced := (unexamined hnone).1
    rw [h] at huntraced
    cases huntraced

end Call

/-- The trace of an executed instruction. -/
def observation (r : Replay) (thread pc : UInt64) : Call := ⟨r.paint pc, pc, thread⟩

theorem run_observation (r : Replay) (thread pc : UInt64) :
    (observation r thread pc).run.1 = r.observe thread pc := rfl

/-- The trace that an executed step leads to. -/
def stepCall? (r : Replay) (thread pc : UInt64) (into : Bool) : Option Call :=
  match r.progress.current with
  | none => none
  | some i =>
    if i.address = pc then none
    else
      let way := if into then "into" else "over"
      let place := address pc.toNat ++ " (Tid: " ++ toString thread ++ ")"
      some (observation (r.detail .events ("[+] Stepping " ++ way ++ ": " ++ place)) thread pc)

/-- The trace of the instruction at the program counter, which a new source leads to. -/
def reanalysis? (r : Replay) : Option Call :=
  match r.debugger.register .counter with
  | none => none
  | some pc =>
    let r := r.inform .events ("[+] Reanalyzing instruction at " ++ address pc.toNat)
    some ⟨r, pc, r.debugger.thread⟩

/-- The replay, with the process stopped where the event reports it. -/
def stoppedAt (r : Replay) (e : Event) : Replay :=
  match e.stop? with
  | some (thread, pc) => { r with debugger := r.debugger.stopAt thread pc }
  | none => r

/-- The trace that an event leads to, once the process has stopped. -/
def eventCall? (r : Replay) : Event → Option Call
  | .processStart | .processExit => none
  | .stepInto thread pc => r.stepCall? thread pc true
  | .stepOver thread pc => r.stepCall? thread pc false
  | .trace thread pc => if r.progress.declined then none else some (observation r thread pc)
  | .breakpoint thread pc =>
    match r.progress.pending.take? pc with
    | none => none
    | some (a, pending) =>
      some (observation (Session.fire { r with progress := { r.progress with pending } } a pc).1 thread pc)

/-- The trace that a step leads to. -/
def call? (r : Replay) : Step → Option Call
  | .event e => (r.stoppedAt e).eventCall? e
  | .taintRegister register =>
    match r.analysis.taintRegister register with
    | .ok analysis => reanalysis? (r.advance analysis).arm
    | .error _ => none
  | .taintMemory start length => reanalysis? (r.advance (r.analysis.taintMemory start length.toNat)).arm
  | _ => none

theorem deliver_eq (r : Replay) (e : Event) : r.deliver e = (r.stoppedAt e).handle e := by
  unfold deliver stoppedAt
  cases e <;> rfl

/-! ## Turns -/

/-- What a step does to a replay, given the trace that it makes. -/
inductive Turn (r t : Replay) : Step → Option Call → Prop
  /-- A start of the process begins anew, with the same options. -/
  | start (options : t.options = r.options) (analysis : t.analysis = .fresh r.options)
      (constraints : t.progress.constraints = []) : Turn r t (.event .processStart) none
  | quiet {step : Step} (h : r.Prepares t) : Turn r t step none
  | trace {step : Step} {c : Call} (h : r.Prepares c.session) (hk : c.run.1.Keeps t) : Turn r t step (some c)

theorem Turn.of_keeps {r s t : Replay} {step : Step} {c : Option Call} (h : r.Keeps s) (ht : Turn s t step c) :
    Turn r t step c := by
  cases ht with
  | start options analysis constraints =>
    rw [h.options] at options analysis
    exact .start options analysis constraints
  | quiet hs => exact .quiet (h.prepares.trans hs)
  | trace hs hk => exact .trace (h.prepares.trans hs) hk

variable (r : Replay)

theorem keeps_stoppedAt (e : Event) : r.Keeps (r.stoppedAt e) := by
  unfold stoppedAt
  split
  · exact .debug (.refl r) _
  · exact .refl r

theorem turn_processStart : Turn r r.onProcessStart (.event .processStart) none := by
  rw [onProcessStart_eq]
  exact .start rfl rfl rfl

/-- Firing an action adds at most a source. -/
theorem prepares_fire (a : PendingAction RegisterSource) (pc : UInt64) : r.Prepares (r.fire a pc).1 := by
  have hfired : r.analysis.Seeded (Action.fire a.action pc r.analysis r.debugger).analysis := by
    dsimp only [Action.fire]
    cases ht : Analyzer.taintRegister r.analysis a.action.register with
    | ok tainted => exact Shadow.seeded_of_taintRegister _ ht
    | error cause => exact .refl _
  unfold Session.fire
  dsimp only
  split
  · exact ⟨rfl, hfired, rfl⟩
  · exact ⟨rfl, hfired, rfl⟩

/-- An executed step is traced unless its instruction has been traced. -/
theorem turn_onStep (step : Step) (thread pc : UInt64) (into : Bool) :
    Turn r (r.onStep thread pc into) step (r.stepCall? thread pc into) := by
  have hquiet : Turn r r.stepOn step none := .quiet (Keeps.prepares (.stepOn (.refl r)))
  unfold onStep stepCall?
  cases hc : r.progress.current with
  | none => exact hquiet
  | some i =>
    by_cases hi : i.address = pc
    · simpa only [hi, if_true] using hquiet
    · simp only [hi, if_false]
      refine .trace (Keeps.prepares (.paint (.detail (.refl r) _ _) pc)) ?_
      rw [run_observation]
      exact .stepOn (.refl _)

/-- An instruction that was executed while step tracing is on is traced unless the user has declined. -/
theorem turn_onTrace (step : Step) (thread pc : UInt64) :
    Turn r (r.onTrace thread pc) step (if r.progress.declined then none else some (observation r thread pc)) := by
  unfold onTrace
  by_cases hd : r.progress.declined = true
  · rw [if_pos hd, if_pos hd]
    exact .quiet (Keeps.prepares (.debug (.refl r) _))
  · rw [if_neg hd, if_neg hd]
    refine .trace (Keeps.prepares (.paint (.refl r) pc)) ?_
    rw [run_observation]
    have hobserve : Keeps (r.observe thread pc) { r.observe thread pc with
        progress := { (r.observe thread pc).progress with
          window := (r.observe thread pc).progress.window + 1
          total := (r.observe thread pc).progress.total + 1 } } := ⟨rfl, rfl, rfl⟩
    dsimp only
    split
    · exact hobserve.askAtLimit _
    · exact hobserve

/-- At a breakpoint that an action waits for, the action fires before the trace. -/
theorem turn_onBreakpoint (thread pc : UInt64) :
    Turn r (r.onBreakpoint thread pc) (.event (.breakpoint thread pc)) (r.eventCall? (.breakpoint thread pc)) := by
  unfold onBreakpoint eventCall?
  dsimp only
  cases hq : r.progress.pending.take? pc with
  | none => exact .quiet (Keeps.prepares ⟨rfl, rfl, rfl⟩)
  | some taken =>
    obtain ⟨a, pending⟩ := taken
    have htaken : r.Prepares { r with progress := { r.progress with pending } } := Keeps.prepares ⟨rfl, rfl, rfl⟩
    dsimp only
    refine .trace ((htaken.trans (prepares_fire _ a pc)).keeps (.paint (.refl _) pc)) ?_
    rw [run_observation]
    generalize Session.observe (_ : Replay) thread pc = t
    split
    · exact ⟨rfl, rfl, rfl⟩
    · split <;> exact ⟨rfl, rfl, rfl⟩

theorem turn_handle (e : Event) : Turn r (r.handle e) (.event e) (r.eventCall? e) := by
  cases e with
  | processStart => exact r.turn_processStart
  | processExit =>
    refine .quiet (Keeps.prepares (.count (.inform (.refl r) _ _) ?_))
    rfl
  | stepInto thread pc => exact r.turn_onStep _ thread pc true
  | stepOver thread pc => exact r.turn_onStep _ thread pc false
  | trace thread pc => exact r.turn_onTrace _ thread pc
  | breakpoint thread pc => exact r.turn_onBreakpoint thread pc

theorem prepares_arm {analysis : Shadow} (h : r.analysis.Seeded analysis) : r.Prepares (r.advance analysis).arm :=
  ⟨rfl, h, rfl⟩

variable {r} in
/-- A new source leads to a trace as long as the program counter is known. -/
theorem turn_reanalyze {s : Replay} (h : r.Prepares s) (step : Step) : Turn r s.reanalyze.1 step s.reanalysis? := by
  have hregister : s.debugger.register .counter = Debugger.register s.debugger .counter := rfl
  unfold reanalyze reanalysis?
  rw [hregister]
  cases Debugger.register s.debugger .counter with
  | none => exact .quiet (h.keeps (.debug (.refl s) _))
  | some pc => exact .trace (h.keeps (.inform (.refl s) _ _)) (.refl _)

/-- All that a step does: it begins anew, or adds sources and makes the trace that `call?` names, if there is one. -/
theorem turn_apply (step : Step) : Turn r (r.apply step) step (r.call? step) := by
  cases step with
  | event e =>
    show Turn r (r.deliver e) _ ((r.stoppedAt e).eventCall? e)
    rw [deliver_eq]
    exact ((r.stoppedAt e).turn_handle e).of_keeps (r.keeps_stoppedAt e)
  | registers values => exact .quiet (Keeps.prepares (.debug (.refl r) _))
  | write start bytes =>
    unfold apply
    dsimp only
    split
    · exact .quiet (Keeps.prepares (.debug (.refl r) _))
    · exact .quiet (Keeps.prepares (.debug (.debug (.refl r) _) _))
  | function f => exact .quiet (Keeps.prepares (.debug (.refl r) _))
  | setBreakpoint a => exact .quiet (Keeps.prepares (.debug (.refl r) _))
  | breakAndTaint a register => exact .quiet (Keeps.prepares ⟨rfl, rfl, rfl⟩)
  | taintRegister register =>
    have htaint : r.analysis.taintRegister register = Analyzer.taintRegister r.analysis register := rfl
    unfold apply Session.taintRegister call?
    dsimp only
    rw [htaint]
    cases hs : Analyzer.taintRegister r.analysis register with
    | ok analysis => exact turn_reanalyze (r.prepares_arm (r.analysis.seeded_of_taintRegister hs)) _
    | error cause => exact .quiet (Keeps.prepares (.debug (.refl r) _))
  | taintMemory start length =>
    have htaint : Analyzer.taintMemory r.analysis start length.toNat = r.analysis.taintMemory start length.toNat := rfl
    unfold apply Session.taintMemory call?
    dsimp only
    rw [htaint]
    exact turn_reanalyze (r.prepares_arm (r.analysis.seeded_taintMemory start length.toNat)) _
  | answer yes => exact .quiet (Keeps.prepares (.debug (.refl r) _))
  | enableStepTrace => exact .quiet (Keeps.prepares ⟨rfl, rfl, rfl⟩)

/-! ## Runs -/

/-- The traces that a run makes, in order. -/
def calls : Replay → List Step → List Call
  | _, [] => []
  | r, step :: steps => (r.call? step).toList ++ calls (r.apply step) steps

/-- A property of replays is kept by starts of the process, by sources, and by the steps that `ok` traces take. -/
structure Kept (ok : Call → Prop) (P : Replay → Prop) : Prop where
  start : ∀ {r t : Replay}, t.options = r.options → t.analysis = .fresh r.options → t.progress.constraints = [] →
    P r → P t
  prepare : ∀ {r t : Replay}, r.Prepares t → P r → P t
  step : ∀ {c : Call} {d : X86.Instruction} {i : Instruction}, c.Examines d i → ok c → P c.session → P c.run.1

namespace Kept

variable {ok : Call → Prop} {P : Replay → Prop} (h : Kept ok P)
include h

theorem trace {c : Call} (hok : ok c) (hc : P c.session) : P c.run.1 := by
  rcases c.examines_or_unexamined with ⟨d, i, hdi⟩ | hnone
  · exact h.step hdi hok hc
  · exact h.prepare (Call.unexamined hnone).2.prepares hc

theorem session {r : Replay} {step : Step} (hr : P r) {c : Call} (hc : r.call? step = some c) : P c.session := by
  have ht := r.turn_apply step
  rw [hc] at ht
  cases ht with
  | trace hs _ => exact h.prepare hs hr

theorem apply {r : Replay} {step : Step} (hok : ∀ c ∈ r.call? step, ok c) (hr : P r) : P (r.apply step) := by
  have ht := r.turn_apply step
  cases hc : r.call? step with
  | none =>
    rw [hc] at ht
    cases ht with
    | start options analysis constraints => exact h.start options analysis constraints hr
    | quiet hs => exact h.prepare hs hr
  | some c =>
    rw [hc] at ht
    cases ht with
    | trace _ hk => exact h.prepare hk.prepares (h.trace (hok c hc) (h.session hr hc))

/-- A kept property holds before every trace of a run and at its end. -/
theorem after : ∀ (steps : List Step) {r : Replay}, (∀ c ∈ r.calls steps, ok c) → P r →
    P (r.after steps) ∧ ∀ c ∈ r.calls steps, P c.session
  | [], r, _, hr => ⟨hr, by simp [calls]⟩
  | step :: steps, r, hok, hr => by
    simp only [calls, List.mem_append, Option.mem_toList] at hok ⊢
    obtain ⟨hend, hcalls⟩ := after steps (fun c hc => hok c (.inr hc)) (h.apply (fun c hc => hok c (.inl hc)) hr)
    refine ⟨hend, fun c hc => ?_⟩
    rcases hc with hc | hc
    · exact h.session hr hc
    · exact hcalls c hc

end Kept

theorem kept_options (options : Options) : Kept (fun _ => True) fun r => r.options = options where
  start ht _ _ hr := ht.trans hr
  prepare hp hr := hp.options.trans hr
  step hdi _ hr := hdi.run.2.options.trans hr

theorem options_after (r : Replay) (steps : List Step) : (r.after steps).options = r.options :=
  ((kept_options r.options).after steps (fun _ _ => trivial) rfl).1

end Replay

end TaintReplay
