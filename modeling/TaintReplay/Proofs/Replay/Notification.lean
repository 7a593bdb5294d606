import TaintReplay.Proofs.Session.Edit
import TaintReplay.Replay

/-!
# Steps and executed instructions are analysed alike

An executed instruction is told of by a step, into or over, or by step tracing (`Event.Tells`). Steps are counted
nowhere, and are passed over where their instruction is the current one; step tracing asks for no step. But for
requests, counts and lines about events (`Session.Abreast`) all three do no more than to observe the instruction
(`abreast_deliver`). An observed instruction is the current one afterwards, traced or not (`exists_current_trace`), so
the next is not passed over either if it stands elsewhere. Hence it makes no difference by which events a sequence of
instructions is told of (`findings_of_tells`).
-/

namespace TaintReplay

/-- The event says that the instruction at an address was executed on a thread. -/
inductive Event.Tells : UInt64 × UInt64 → Event → Prop
  | stepInto (thread pc : UInt64) : Tells (thread, pc) (.stepInto thread pc)
  | stepOver (thread pc : UInt64) : Tells (thread, pc) (.stepOver thread pc)
  | trace (thread pc : UInt64) : Tells (thread, pc) (.trace thread pc)

/-- Leaves out requests, counts and lines about events. -/
def Edit.unsteered : Edit where
  registers := id
  requests _ := #[]
  lines log := log.filter (·.component != .events)
  count _ := 0
  lines_push log l h := by rw [Array.filter_push, if_pos (bne_iff_ne.2 h)]

namespace Session

section Abreast

variable {α ε : Type}

/-- The sessions differ in requests, counts and lines about events at most. -/
def Abreast (s t : Session α ε Recorder) : Prop := s.edit .unsteered = t.edit .unsteered

theorem Abreast.refl (s : Session α ε Recorder) : s.Abreast s := rfl

variable {s t u : Session α ε Recorder}

theorem Abreast.symm (h : s.Abreast t) : t.Abreast s := Eq.symm h

theorem Abreast.trans (h₁ : s.Abreast t) (h₂ : t.Abreast u) : s.Abreast u := Eq.trans h₁ h₂

variable (s)

theorem abreast_say_events (level : Level) (text : String) : (s.say level .events text).Abreast s := by
  have hlines : (s.debugger.log.push ⟨level, .events, text⟩).filter (·.component != .events) =
      s.debugger.log.filter (·.component != .events) := by
    rw [Array.filter_push, if_neg (by simp)]
  exact congrArg (fun log => { s.edit .unsteered with debugger := { s.debugger.edit .unsteered with log } }) hlines

theorem abreast_detail_events (text : String) : (s.detail .events text).Abreast s := by
  unfold detail
  split
  · exact s.abreast_say_events _ _
  · exact .refl s

/-- Stepping on asks for a step and writes a line at most. -/
theorem abreast_stepOn : s.stepOn.Abreast s := by
  unfold stepOn
  split
  · split
    · exact s.abreast_say_events _ _
    · split
      · exact s.abreast_say_events _ _
      · exact .refl s
  · exact .refl s

end Abreast

section Observe

variable {α : Type} {s t : Session α Shadow Recorder} {thread pc : UInt64}

theorem Abreast.observe (h : s.Abreast t) (thread pc : UInt64) :
    (s.observe thread pc).Abreast (t.observe thread pc) := by
  have hs : (s.edit .unsteered).observe thread pc = (s.observe thread pc).edit .unsteered := observe_edit rfl thread pc
  have ht : (t.edit .unsteered).observe thread pc = (t.observe thread pc).edit .unsteered := observe_edit rfl thread pc
  exact hs.symm.trans ((congrArg (·.observe thread pc) h).trans ht)

/-- A step to another instruction observes it. -/
theorem abreast_onStep {i : Instruction} (hcurrent : s.progress.current = some i) (hi : i.address ≠ pc)
    (thread : UInt64) (into : Bool) : (s.onStep thread pc into).Abreast (s.observe thread pc) := by
  unfold onStep
  rw [hcurrent]
  dsimp only
  rw [if_neg hi]
  exact (abreast_stepOn _).trans ((s.abreast_detail_events _).observe thread pc)

/-- So does step tracing, unless it has been declined or there is a limit. -/
theorem abreast_onTrace (hgoing : s.progress.declined = false) (hlimit : s.options.window? = none)
    (thread pc : UInt64) : (s.onTrace thread pc).Abreast (s.observe thread pc) := by
  have hobserved : (s.observe thread pc).options.window? = none := by
    rw [show (s.observe thread pc).options = s.options from congrArg Control.options (s.control_observe thread pc)]
    exact hlimit
  unfold onTrace
  rw [hgoing, if_neg Bool.false_ne_true]
  dsimp only
  rw [hobserved]
  rfl

/-- An armed trace leaves a record of its address, also if it is given up. -/
theorem exists_current_trace (harmed : s.progress.armed = true) (pc thread : UInt64) :
    ∃ i, (s.trace pc thread).1.progress.current = some i ∧ i.address = pc := by
  cases hd : X86.decode (s.debugger.codeAt pc) with
  | none =>
    rw [trace_of_not_decode harmed hd]
    exact ⟨_, rfl, rfl⟩
  | some d =>
    rw [trace_of_decode harmed hd, current_report]
    exact ⟨_, rfl, Shadow.address_step _ _ _ _⟩

end Observe

end Session

namespace Replay

open Session

/-- The replay traces what it is told of, whichever event tells it, unless this is the instruction at `last` again. -/
structure Follows (r : Replay) (last : UInt64) : Prop where
  armed : r.progress.armed = true
  going : r.progress.declined = false
  unlimited : r.options.window? = none
  current : ∃ i, r.progress.current = some i ∧ i.address = last

theorem Follows.of_abreast {r t : Replay} {last : UInt64} (h : r.Follows last) (hrt : r.Abreast t) :
    t.Follows last where
  armed := (congrArg (fun r => r.progress.armed) hrt).symm.trans h.armed
  going := (congrArg (fun r => r.progress.declined) hrt).symm.trans h.going
  unlimited := (congrArg (fun r => r.options.window?) hrt).symm.trans h.unlimited
  current := by
    have hcurrent : r.progress.current = t.progress.current := congrArg (fun r => r.progress.current) hrt
    exact hcurrent ▸ h.current

variable {r t : Replay} {last thread pc : UInt64} {e : Event}

/-- The replay after the process has stopped. -/
def stopped (r : Replay) (thread pc : UInt64) : Replay := { r with debugger := r.debugger.stopAt thread pc }

/-- The replay after the process has stopped and the instruction there has been observed. -/
def observed (r : Replay) (thread pc : UInt64) : Replay := Session.observe (r.stopped thread pc) thread pc

/-- Whichever event tells of an instruction, it is observed. -/
theorem abreast_deliver (h : r.Follows last) (hlast : last ≠ pc) (he : e.Tells (thread, pc)) :
    (r.deliver e).Abreast (r.observed thread pc) := by
  obtain ⟨i, hcurrent, rfl⟩ := h.current
  have hstopped : (r.stopped thread pc).progress.current = some i := hcurrent
  cases he with
  | stepInto => exact abreast_onStep hstopped hlast thread true
  | stepOver => exact abreast_onStep hstopped hlast thread false
  | trace => exact abreast_onTrace (s := r.stopped thread pc) h.going h.unlimited thread pc

theorem follows_observed (h : r.Follows last) (thread pc : UInt64) : (r.observed thread pc).Follows pc := by
  have hpaint : ((r.stopped thread pc).paint pc).control = (r.stopped thread pc).control := control_paint _ pc
  have hcontrol : (r.observed thread pc).control = (r.stopped thread pc).control := control_observe _ thread pc
  exact {
    armed := (congrArg Control.armed hcontrol).trans h.armed
    going := (congrArg Control.declined hcontrol).trans h.going
    unlimited := (congrArg (·.options.window?) hcontrol).trans h.unlimited
    current := exists_current_trace ((congrArg Control.armed hpaint).trans h.armed) pc thread }

theorem abreast_observed (h : r.Abreast t) (thread pc : UInt64) :
    (r.observed thread pc).Abreast (t.observed thread pc) := by
  have hstopped : (r.stopped thread pc).Abreast (t.stopped thread pc) :=
    congrArg (fun s : Replay => s.stopped thread pc) h
  exact hstopped.observe thread pc

/-- Replays that are abreast stay so, whichever events tell them of the same instructions. -/
theorem abreast_foldl {stops : List (UInt64 × UInt64)} {es fs : List Event}
    (hes : List.Forall₂ (fun x e => e.Tells x) stops es) (hfs : List.Forall₂ (fun x e => e.Tells x) stops fs)
    (hchain : List.IsChain (· ≠ ·) (last :: stops.map Prod.snd))
    (h : r.Follows last) (hrt : r.Abreast t) : (es.foldl deliver r).Abreast (fs.foldl deliver t) := by
  induction hes generalizing fs r t last with
  | nil =>
    cases hfs
    exact hrt
  | @cons stop e stops es he _ ih =>
    obtain ⟨thread, pc⟩ := stop
    cases hfs with | @cons _ f _ fs hf hfs =>
    obtain ⟨hlast, hrest⟩ := List.isChain_cons_cons.1 hchain
    have hr : (r.deliver e).Abreast (r.observed thread pc) := abreast_deliver h hlast he
    have ht : (t.deliver f).Abreast (t.observed thread pc) := abreast_deliver (h.of_abreast hrt) hlast hf
    have hboth : (r.deliver e).Abreast (t.deliver f) := hr.trans ((abreast_observed hrt thread pc).trans ht.symm)
    have hall := ih hfs hrest ((follows_observed h thread pc).of_abreast hr.symm) hboth
    exact hall

/-- **Steps and executed instructions are analysed alike.** Once tracing is armed, has a current instruction, and is
neither declined nor limited, let a sequence of instructions be executed, none at the address of the one before it. Then
all that is found out is the same, whether steps or step tracing tell of them, or now the one and now the other. Only
the counts, the requests and the lines about events may differ. -/
theorem findings_of_tells (r : Replay) {i : Instruction} (harmed : r.progress.armed = true)
    (hcurrent : r.progress.current = some i) (hgoing : r.progress.declined = false) (hlimit : r.options.window? = none)
    {stops : List (UInt64 × UInt64)} (hchain : List.IsChain (· ≠ ·) (i.address :: stops.map Prod.snd))
    {es fs : List Event} (hes : List.Forall₂ (fun x e => e.Tells x) stops es)
    (hfs : List.Forall₂ (fun x e => e.Tells x) stops fs) :
    let s := r.after (es.map .event)
    let t := r.after (fs.map .event)
    t.findings = s.findings ∧
      t.control = { s.control with
        window := t.progress.window
        total := t.progress.total
        requests := t.debugger.requests } ∧
      t.debugger.log.filter (·.component != .events) = s.debugger.log.filter (·.component != .events) := by
  intro s t
  have hdelivered (es : List Event) : r.after (es.map .event) = es.foldl deliver r := List.foldl_map
  have hst : s.Abreast t := by
    show Abreast (r.after (es.map .event)) (r.after (fs.map .event))
    rw [hdelivered, hdelivered]
    exact abreast_foldl hes hfs hchain ⟨harmed, hgoing, hlimit, i, hcurrent, rfl⟩ (.refl r)
  have hfindings : (t.edit .unsteered).findings = (s.edit .unsteered).findings :=
    congrArg (fun u : Replay => u.findings) hst.symm
  have hcontrol := congrArg (fun u : Replay => { u.control with
    window := t.progress.window
    total := t.progress.total
    requests := t.debugger.requests }) hst.symm
  have hlines : (t.edit .unsteered).debugger.log = (s.edit .unsteered).debugger.log :=
    congrArg (fun u : Replay => u.debugger.log) hst.symm
  exact ⟨hfindings, hcontrol, hlines⟩

/-- A tainted move, bytes that are no instruction, and another move: told of by step tracing, or by steps as well. -/
theorem findings_of_tells_undecodable :
    let image : Image := { segments := [⟨0x1000, #[0x90, 0x48, 0x89, 0xf8, 0x06, 0x48, 0x89, 0xc1], by decide⟩] }
    let r := (start { limit := none } image).after [.registers [("rip", 0x1000)], .taintRegister "rdi"]
    let es : List Event := [.trace 1 0x1001, .trace 1 0x1004, .trace 2 0x1005]
    let fs : List Event := [.stepInto 1 0x1001, .stepOver 1 0x1004, .trace 2 0x1005]
    (r.after (fs.map .event)).findings = (r.after (es.map .event)).findings ∧
      (r.after (fs.map .event)).analysis.isTainted (.register .rcx) = true ∧
      (r.after (es.map .event)).progress.total = 3 ∧ (r.after (fs.map .event)).progress.total = 1 := by
  intro image r es fs
  let stops : List (UInt64 × UInt64) := [(1, 0x1001), (1, 0x1004), (2, 0x1005)]
  have hes : List.Forall₂ (fun x e => e.Tells x) stops es :=
    .cons (.trace _ _) (.cons (.trace _ _) (.cons (.trace _ _) .nil))
  have hfs : List.Forall₂ (fun x e => e.Tells x) stops fs :=
    .cons (.stepInto _ _) (.cons (.stepOver _ _) (.cons (.trace _ _) .nil))
  have harmed : r.progress.armed = true := by decide +kernel
  have hgoing : r.progress.declined = false := by decide +kernel
  have hlimit : r.options.window? = none := by decide +kernel
  obtain ⟨i, hcurrent, haddress⟩ : ∃ i, r.progress.current = some i ∧ i.address = 0x1000 :=
    Option.map_eq_some_iff.1 (by decide +kernel)
  have hchain : List.IsChain (· ≠ ·) (i.address :: stops.map Prod.snd) := by
    rw [haddress]
    decide
  refine ⟨(r.findings_of_tells harmed hcurrent hgoing hlimit hchain hes hfs).1, ?_, ?_, ?_⟩
  all_goals decide +kernel

end Replay

end TaintReplay
