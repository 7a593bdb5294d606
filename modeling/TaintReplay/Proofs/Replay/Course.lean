import TaintReplay.Proofs.Replay.Call
import TaintReplay.Proofs.Session.Halves

/-!
# The course of a step

Apart from a trace, a step of a replay does little to the findings: it may paint an executed instruction
(`Replay.executed?`), and it may make something a source (`Replay.seeds`), which arms tracing. `Untraced` says this of
two sessions, and `course_apply` of every step but a start of the process: what it does before the trace that `call?`
names and behind it is `Untraced`, and all else that it does is this trace. A session that is not armed stays as it was
in its trace, so a whole step without a source is then `Untraced` (`Course.untraced`).
-/

namespace TaintReplay

open Text Session

namespace Replay

/-- Is this a register that can be made a source? -/
def isRegister (name : String) : Bool := (Alias.find? name).isSome

/-- Does the event make something a source? A breakpoint does if an action with a known register waits for it. -/
def eventSeeds (r : Replay) : Event → Bool
  | .breakpoint _ pc =>
    match r.progress.pending.take? pc with
    | some (a, _) => isRegister a.action.register
    | none => false
  | _ => false

/-- Does the step make something a source? -/
def seeds (r : Replay) : Step → Bool
  | .event e => r.eventSeeds e
  | .taintRegister register => isRegister register
  | .taintMemory _ _ => true
  | _ => false

/-- The address of the executed instruction that a step reports, as far as the session looks at it. -/
def executed? (r : Replay) : Step → Option UInt64
  | .event e => ((r.stoppedAt e).eventCall? e).map (·.pc)
  | _ => none

/-- The colours after executed instructions have been painted, if that is wanted. -/
def coat (o : Options) (colors : Std.TreeMap UInt64 UInt32) (executed : List UInt64) : Std.TreeMap UInt64 UInt32 :=
  if o.paintExecuted then executed.foldl (fun colors pc => colors.insert pc o.colorExecuted) colors else colors

@[simp] theorem coat_nil (o : Options) (colors : Std.TreeMap UInt64 UInt32) : coat o colors [] = colors := by
  unfold coat
  split <;> rfl

theorem coat_append (o : Options) (colors : Std.TreeMap UInt64 UInt32) (pcs more : List UInt64) :
    coat o colors (pcs ++ more) = coat o (coat o colors pcs) more := by
  unfold coat
  split
  · exact List.foldl_append
  · rfl

/-! ## Without a trace -/

/-- Between two sessions nothing is traced. Executed instructions may have been painted, and something may have become a
source, which marks the session and may arm it. -/
structure Untraced (r : Replay) (seeded : Bool) (executed : List UInt64) (t : Replay) : Prop where
  options : t.options = r.options
  armed : t.progress.armed = true → r.progress.armed = true ∨ seeded = true
  analysis : seeded = false → t.analysis = r.analysis
  findings : t.findings =
    { r.findings with
      analysis := t.analysis
      marked := r.progress.marked || seeded
      colors := coat r.options r.debugger.colors executed }

namespace Untraced

variable {r s t : Replay} {seeded more : Bool} {executed later : List UInt64}

theorem marked (h : r.Untraced seeded executed t) : t.progress.marked = (r.progress.marked || seeded) :=
  congrArg Findings.marked h.findings

theorem constraints (h : r.Untraced seeded executed t) : t.progress.constraints = r.progress.constraints :=
  congrArg Findings.constraints h.findings

theorem colors (h : r.Untraced seeded executed t) :
    t.debugger.colors = coat r.options r.debugger.colors executed := congrArg Findings.colors h.findings

theorem comments (h : r.Untraced seeded executed t) : t.debugger.comments = r.debugger.comments :=
  congrArg Findings.comments h.findings

theorem current (h : r.Untraced seeded executed t) : t.progress.current = r.progress.current :=
  congrArg Findings.current h.findings

theorem dormant (h : r.Untraced false executed t) (hr : r.progress.armed = false) : t.progress.armed = false := by
  have harmed := h.armed
  rw [hr] at harmed
  simpa using harmed

/-- Options and findings that stay as they are have not been traced. -/
theorem of_findings (options : t.options = r.options) (armed : t.progress.armed = true → r.progress.armed = true)
    (findings : t.findings = r.findings) : r.Untraced false [] t where
  options := options
  armed h := .inl (armed h)
  analysis _ := congrArg Findings.analysis findings
  findings := by
    have hanalysis : t.analysis = r.analysis := congrArg Findings.analysis findings
    rw [findings, hanalysis, coat_nil, Bool.or_false]
    rfl

/-- What writes neither options nor progress nor analysis writes findings in the debugger only. -/
theorem of_debugger {d : Recorder} (colors : d.colors = r.debugger.colors) (comments : d.comments = r.debugger.comments)
    (renames : d.renames = r.debugger.renames) : r.Untraced false [] { r with debugger := d } :=
  of_findings rfl id (by simp only [Session.findings, colors, comments, renames])

protected theorem refl (r : Replay) : r.Untraced false [] r := of_findings rfl id rfl

theorem trans (h₁ : r.Untraced seeded executed s) (h₂ : s.Untraced more later t) :
    r.Untraced (seeded || more) (executed ++ later) t where
  options := h₂.options.trans h₁.options
  armed h := by
    rw [Bool.or_eq_true]
    rcases h₂.armed h with h | h
    · exact (h₁.armed h).imp_right .inl
    · exact .inr (.inr h)
  analysis h := by
    rw [Bool.or_eq_false_iff] at h
    exact (h₂.analysis h.2).trans (h₁.analysis h.1)
  findings := by
    rw [h₂.findings, h₁.findings, h₁.marked, h₁.colors, h₁.options, coat_append, Bool.or_assoc]

/-- What happens first, without painting or a source, changes nothing in what is said about the rest. -/
theorem after (h : r.Untraced false [] s) (hst : s.Untraced seeded executed t) : r.Untraced seeded executed t := by
  simpa using h.trans hst

/-- Neither does what happens last. -/
theorem before (h : r.Untraced seeded executed s) (hst : s.Untraced false [] t) : r.Untraced seeded executed t := by
  simpa using h.trans hst

theorem say (h : r.Untraced seeded executed t) (level : Level) (component : Component) (text : String) :
    r.Untraced seeded executed (t.say level component text) := h.before (of_debugger rfl rfl rfl)

theorem inform (h : r.Untraced seeded executed t) (component : Component) (text : String) :
    r.Untraced seeded executed (t.inform component text) := by
  unfold Session.inform
  split
  · exact h.say _ _ _
  · exact h

theorem detail (h : r.Untraced seeded executed t) (component : Component) (text : String) :
    r.Untraced seeded executed (t.detail component text) := by
  unfold Session.detail
  split
  · exact h.say _ _ _
  · exact h

theorem stepOn (h : r.Untraced seeded executed t) : r.Untraced seeded executed t.stepOn := by
  obtain ⟨_, _, heq⟩ := t.exists_stepOn_eq
  rw [heq]
  exact h.before (of_debugger rfl rfl rfl)

theorem askAtLimit (h : r.Untraced seeded executed t) (limit : Nat) :
    r.Untraced seeded executed (t.askAtLimit limit) := by
  obtain ⟨_, _, _, _, _, _, _, heq⟩ := t.exists_askAtLimit_eq limit
  rw [heq]
  exact h.before (of_findings rfl id rfl)

/-- Painting adds to the executed instructions. -/
theorem paint (h : r.Untraced seeded executed t) (pc : UInt64) : r.Untraced seeded (executed ++ [pc]) (t.paint pc) := by
  have hpaint : t.Untraced false [pc] (t.paint pc) := by
    unfold Session.paint
    cases hp : t.options.paintExecuted with
    | false => exact ⟨rfl, .inl, fun _ => rfl, by simp [Session.findings, coat, hp]⟩
    | true =>
      refine ⟨rfl, .inl, fun _ => rfl, ?_⟩
      rw [Bool.or_false, coat, if_pos hp]
      rfl
  simpa using h.trans hpaint

/-- A new source marks the session, and may arm it. -/
theorem arm (r : Replay) (analysis : Shadow) : r.Untraced true [] (r.advance analysis).arm where
  options := congrArg Control.options (r.control_advance analysis)
  armed _ := .inr rfl
  analysis h := nomatch h
  findings := by
    have hadvance := r.findings_advance analysis
    simp only [Session.findings, Findings.mk.injEq] at hadvance
    simp [Session.findings, Session.arm, coat_nil, hadvance]

end Untraced

/-! ## With a trace -/

/-- All that happens between two sessions, given the trace that is made. -/
inductive Course (r t : Replay) (seeded : Bool) (executed : List UInt64) : Option Call → Prop
  | quiet (h : r.Untraced seeded executed t) : Course r t seeded executed none
  | trace {c : Call} (h : r.Untraced seeded executed c.session) (hk : c.run.1.Untraced false [] t) :
      Course r t seeded executed (some c)

namespace Course

variable {r s t : Replay} {seeded : Bool} {executed : List UInt64} {c : Option Call}

theorem after (h : r.Untraced false [] s) (ht : Course s t seeded executed c) : Course r t seeded executed c := by
  cases ht with
  | quiet hs => exact .quiet (h.after hs)
  | trace hs hk => exact .trace (h.after hs) hk

/-- Unless it is armed a session does not trace. -/
theorem untraced (h : Course r t false executed c) (hr : r.progress.armed = false) : r.Untraced false executed t := by
  cases h with
  | quiet hs => exact hs
  | @trace c hs hk =>
    have hrun : c.run = (c.session, .dormant) := c.session.trace_dormant c.pc c.thread (hs.dormant hr)
    rw [hrun] at hk
    exact hs.before hk

/-- What is preserved where nothing is traced, and by every trace, is preserved. -/
theorem preserves {P : Replay → Prop} (h : Course r t seeded executed c)
    (untraced : ∀ {s u : Replay} {seeded : Bool} {executed : List UInt64}, s.Untraced seeded executed u → P s → P u)
    (traced : ∀ c : Call, P c.session → P c.run.1) (hr : P r) : P t := by
  cases h with
  | quiet hs => exact untraced hs hr
  | @trace c hs hk => exact untraced hk (traced c (untraced hs hr))

end Course

variable (r : Replay)

theorem course_onStep (thread pc : UInt64) (into : Bool) : Course r (r.onStep thread pc into) false
    ((r.stepCall? thread pc into).map (·.pc)).toList (r.stepCall? thread pc into) := by
  have hquiet : Course r r.stepOn false [] none := .quiet (.stepOn (.refl r))
  unfold onStep stepCall?
  cases hc : r.progress.current with
  | none => exact hquiet
  | some i =>
    by_cases hi : i.address = pc
    · simp only [hi, if_true]
      exact hquiet
    · simp only [hi, if_false]
      refine .trace (.paint (.detail (.refl r) _ _) pc) ?_
      rw [run_observation]
      exact .stepOn (.refl _)

theorem course_onTrace (thread pc : UInt64) : Course r (r.onTrace thread pc) false
    ((r.eventCall? (.trace thread pc)).map (·.pc)).toList (r.eventCall? (.trace thread pc)) := by
  by_cases hd : r.progress.declined = true
  · have hcall : r.eventCall? (.trace thread pc) = none := if_pos hd
    rw [hcall, onTrace, if_pos hd]
    exact .quiet (.say (.refl r) _ _ _)
  · have hcall : r.eventCall? (.trace thread pc) = some (observation r thread pc) := if_neg hd
    rw [hcall, onTrace, if_neg hd]
    refine .trace (.paint (.refl r) pc) ?_
    rw [run_observation]
    have hcount : Untraced (r.observe thread pc) false [] { r.observe thread pc with
        progress := { (r.observe thread pc).progress with
          window := (r.observe thread pc).progress.window + 1
          total := (r.observe thread pc).progress.total + 1 } } := .of_findings rfl id rfl
    dsimp only
    split
    · exact hcount.askAtLimit _
    · exact hcount

/-- The registers that can be made a source are those with a known name. -/
theorem exists_taintRegister_eq_ok (s : Shadow) {name : String} (h : isRegister name = true) :
    ∃ t, s.taintRegister name = .ok t := by
  obtain ⟨a, ha⟩ := Option.isSome_iff_exists.1 h
  exact ⟨_, by rw [Shadow.taintRegister, ha]⟩

theorem taintRegister_eq_error (s : Shadow) {name : String} (h : isRegister name = false) :
    s.taintRegister name = .error (.unknownRegister name) := by
  have hnone : Alias.find? name = none := by simpa [isRegister] using h
  rw [Shadow.taintRegister, hnone]

/-- An action that fires makes a register a source, if the register is known. -/
theorem untraced_fire (a : PendingAction RegisterSource) (pc : UInt64) :
    r.Untraced (isRegister a.action.register) [] (r.fire a pc).1 := by
  unfold fire
  dsimp only [Action.fire]
  cases hk : isRegister a.action.register with
  | true =>
    obtain ⟨t, ht⟩ := exists_taintRegister_eq_ok r.analysis hk
    rw [show Analyzer.taintRegister r.analysis a.action.register = .ok t from ht]
    exact (Untraced.arm r t).say _ _ _
  | false =>
    rw [show Analyzer.taintRegister r.analysis a.action.register = _ from taintRegister_eq_error r.analysis hk]
    exact .say (.refl r) _ _ _

theorem course_onBreakpoint (thread pc : UInt64) :
    Course r (r.onBreakpoint thread pc) (r.eventSeeds (.breakpoint thread pc))
      ((r.eventCall? (.breakpoint thread pc)).map (·.pc)).toList (r.eventCall? (.breakpoint thread pc)) := by
  unfold onBreakpoint eventCall? eventSeeds
  dsimp only
  cases hq : r.progress.pending.take? pc with
  | none => exact .quiet (.of_findings rfl id rfl)
  | some taken =>
    obtain ⟨a, pending⟩ := taken
    have htaken : r.Untraced false [] { r with progress := { r.progress with pending } } := .of_findings rfl id rfl
    dsimp only
    refine .trace ((htaken.after (untraced_fire _ a pc)).paint pc) ?_
    rw [run_observation]
    generalize Session.observe (_ : Replay) thread pc = t
    split
    · exact .of_findings rfl id rfl
    · split
      · exact .of_findings rfl id rfl
      · exact .of_findings rfl id rfl

/-- The course of every event but a start of the process. -/
theorem course_handle {e : Event} (he : e ≠ .processStart) :
    Course r (r.handle e) (r.eventSeeds e) ((r.eventCall? e).map (·.pc)).toList (r.eventCall? e) := by
  cases e with
  | processStart => exact absurd rfl he
  | processExit =>
    refine .quiet (Untraced.before (.inform (.refl r) _ _) (.of_findings rfl ?_ rfl))
    intro h
    cases h
  | stepInto thread pc => exact r.course_onStep thread pc true
  | stepOver thread pc => exact r.course_onStep thread pc false
  | trace thread pc => exact r.course_onTrace thread pc
  | breakpoint thread pc => exact r.course_onBreakpoint thread pc

theorem untraced_stoppedAt (e : Event) : r.Untraced false [] (r.stoppedAt e) := by
  unfold stoppedAt
  split
  · exact .of_debugger rfl rfl rfl
  · exact .refl r

theorem eventSeeds_stoppedAt (e : Event) : (r.stoppedAt e).eventSeeds e = r.eventSeeds e := by
  cases e <;> rfl

variable {r} in
theorem course_reanalyze {s : Replay} {seeded : Bool} {executed : List UInt64} (h : r.Untraced seeded executed s) :
    Course r s.reanalyze.1 seeded executed s.reanalysis? := by
  have hregister : s.debugger.register .counter = Debugger.register s.debugger .counter := rfl
  unfold reanalyze reanalysis?
  rw [hregister]
  cases Debugger.register s.debugger .counter with
  | none => exact .quiet (h.say _ _ _)
  | some pc => exact .trace (h.inform _ _) (.refl _)

/-- The course of every step but a start of the process. -/
theorem course_apply {step : Step} (hstep : step ≠ .event .processStart) :
    Course r (r.apply step) (r.seeds step) (r.executed? step).toList (r.call? step) := by
  cases step with
  | event e =>
    have he : e ≠ .processStart := fun h => hstep (congrArg _ h)
    show Course r (r.deliver e) (r.eventSeeds e) _ ((r.stoppedAt e).eventCall? e)
    rw [deliver_eq, ← r.eventSeeds_stoppedAt e]
    exact .after (r.untraced_stoppedAt e) ((r.stoppedAt e).course_handle he)
  | registers values =>
    obtain ⟨registers, hregisters⟩ := exists_foldl_setRegister_eq values r.debugger
    unfold apply
    dsimp only
    rw [hregisters]
    exact .quiet (.of_debugger rfl rfl rfl)
  | write start bytes =>
    have hwrite : r.Untraced false [] { r with debugger := (r.debugger.write start bytes).1 } :=
      .of_debugger rfl rfl rfl
    unfold apply
    dsimp only
    split
    · exact .quiet hwrite
    · exact .quiet (hwrite.say _ _ _)
  | function f => exact .quiet (.of_debugger rfl rfl rfl)
  | setBreakpoint a => exact .quiet (.of_debugger rfl rfl rfl)
  | breakAndTaint a register =>
    unfold apply breakAndRun
    dsimp only
    split
    · exact .quiet (.of_findings rfl id rfl)
    · exact .quiet (.of_findings rfl id rfl)
  | taintRegister register =>
    unfold apply Session.taintRegister call? seeds executed?
    dsimp only
    cases hk : isRegister register with
    | true =>
      obtain ⟨t, ht⟩ := exists_taintRegister_eq_ok r.analysis hk
      rw [ht, show Analyzer.taintRegister r.analysis register = .ok t from ht]
      exact course_reanalyze (.arm r t)
    | false =>
      have herror := taintRegister_eq_error r.analysis hk
      rw [herror, show Analyzer.taintRegister r.analysis register = _ from herror]
      exact .quiet (.say (.refl r) _ _ _)
  | taintMemory start length => exact course_reanalyze (.arm r _)
  | answer yes => exact .quiet (.of_debugger rfl rfl rfl)
  | enableStepTrace => exact .quiet (.of_findings rfl id rfl)

end Replay

end TaintReplay
