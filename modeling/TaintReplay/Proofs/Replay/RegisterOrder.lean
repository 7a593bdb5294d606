import Mathlib.Data.List.Forall2
import TaintReplay.Proofs.Replay.Trap
import TaintReplay.Proofs.Session.Registers

/-!
# The order of register values

A step may set several registers at once. The values do not come in an order that means anything, but they are written
one behind the other, and two names may belong to one full register. `register_setRegisters` says what is there in the
end: of the values for one register, the last. So the order is no matter iff the values `Agree`. No report depends on it
then, since a replay cannot tell apart two sessions with the `SameFile` of registers (`SameFile.after`).
-/

namespace TaintReplay

open Session

namespace Replay

/-! ## Replays look registers up -/

section Step

variable {m : RegisterMap UInt64} {r : Replay}

theorem fire_withRegisters (m : RegisterMap UInt64) (r : Replay) (a : PendingAction RegisterSource) (pc : UInt64) :
    (r.withRegisters m).fire a pc = ((r.fire a pc).1.withRegisters m, (r.fire a pc).2) := by
  have hanalysis : (r.withRegisters m).analysis = r.analysis := rfl
  have hdebugger : (r.withRegisters m).debugger = { r.debugger with registers := m } := rfl
  unfold Session.fire
  dsimp only [Action.fire]
  rw [hanalysis, hdebugger]
  cases Analyzer.taintRegister r.analysis a.action.register with
  | error cause => rfl
  | ok tainted =>
    dsimp only
    rw [announce_registers]
    rfl

theorem onProcessStart_withRegisters (m : RegisterMap UInt64) (r : Replay) :
    (r.withRegisters m).onProcessStart = r.onProcessStart.withRegisters m := by
  have hannounce : announceStart r.options { r.debugger with registers := m } =
      { announceStart r.options r.debugger with registers := m } := by
    unfold announceStart note
    split <;> rfl
  rw [onProcessStart_eq, onProcessStart_eq]
  exact congrArg (fun debugger => ({ options := r.options, analysis := .fresh r.options, debugger } : Replay)) hannounce

variable (hm : m.get? = r.debugger.register)
include hm

theorem onStep_withRegisters (thread pc : UInt64) (into : Bool) :
    (r.withRegisters m).onStep thread pc into = (r.onStep thread pc into).withRegisters m := by
  have hcurrent : (r.withRegisters m).progress.current = r.progress.current := rfl
  unfold Session.onStep
  rw [hcurrent]
  cases r.progress.current with
  | none => exact stepOn_withRegisters m r
  | some i =>
    dsimp only
    split
    · exact stepOn_withRegisters m r
    · rw [detail_withRegisters]
      generalize hs : r.detail .events _ = s
      have hregister : m.get? = s.debugger.register := by
        rw [hm, ← hs]
        exact (register_of_control (r.control_detail _ _)).symm
      rw [observe_withRegisters hregister, stepOn_withRegisters]

theorem onTrace_withRegisters (thread pc : UInt64) :
    (r.withRegisters m).onTrace thread pc = (r.onTrace thread pc).withRegisters m := by
  unfold Session.onTrace
  rw [apply_ite (withRegisters m)]
  congr 1
  rw [observe_withRegisters hm]
  generalize r.observe thread pc = s
  dsimp only
  rw [show (s.withRegisters m).options = s.options from rfl]
  cases s.options.window? with
  | none => rfl
  | some limit =>
    exact askAtLimit_withRegisters m
      { s with progress := { s.progress with window := s.progress.window + 1, total := s.progress.total + 1 } } limit

theorem onBreakpoint_withRegisters (thread pc : UInt64) :
    (r.withRegisters m).onBreakpoint thread pc = (r.onBreakpoint thread pc).withRegisters m := by
  have hpending : (r.withRegisters m).progress.pending = r.progress.pending := rfl
  unfold Session.onBreakpoint
  rw [hpending]
  cases r.progress.pending.take? pc with
  | none => rfl
  | some taken =>
    obtain ⟨a, pending⟩ := taken
    obtain ⟨⟨_, hcontrol⟩, -⟩ := exists_control_fire_eq { r with progress := { r.progress with pending } } a pc
    have hfire := fire_withRegisters m { r with progress := { r.progress with pending } } a pc
    have htaken : withRegisters m { r with progress := { r.progress with pending } } =
        { r.withRegisters m with progress := { (r.withRegisters m).progress with pending } } := rfl
    rw [htaken] at hfire
    dsimp only
    rw [hfire]
    generalize Session.fire { r with progress := { r.progress with pending } } a pc = fired at hcontrol
    obtain ⟨s, b⟩ := fired
    have hregister : m.get? = s.debugger.register := by
      rw [hm]
      exact (congrArg (fun c : Control RegisterSource => c.registers.get?) hcontrol).symm
    dsimp only
    rw [observe_withRegisters hregister]
    generalize s.observe thread pc = t
    rw [show (t.withRegisters m).options = t.options from rfl, apply_ite (withRegisters m), apply_ite (withRegisters m)]
    rfl

theorem handle_withRegisters (e : Event) : (r.withRegisters m).handle e = (r.handle e).withRegisters m := by
  cases e with
  | processStart => exact onProcessStart_withRegisters m r
  | processExit =>
    exact congrArg (fun s : Replay => { s with progress := { s.progress with armed := false } })
      (inform_withRegisters m r .events "[!] Process exiting...")
  | stepInto thread pc => exact onStep_withRegisters hm thread pc true
  | stepOver thread pc => exact onStep_withRegisters hm thread pc false
  | trace thread pc => exact onTrace_withRegisters hm thread pc
  | breakpoint thread pc => exact onBreakpoint_withRegisters hm thread pc

end Step

/-- The sessions differ at most in their maps of registers, which give the same register file. -/
def SameFile (r t : Replay) : Prop := ∃ m : RegisterMap UInt64, m.get? = r.debugger.register ∧ t = r.withRegisters m

protected theorem SameFile.refl (r : Replay) : r.SameFile r := ⟨r.debugger.registers, rfl, rfl⟩

theorem SameFile.report {r t : Replay} (h : r.SameFile t) : Report.of t = Report.of r := by
  obtain ⟨m, -, rfl⟩ := h
  rfl

/-- What a session does whatever its map of registers is, without a change to the map, keeps sessions the same. -/
theorem SameFile.congr {r t : Replay} (h : r.SameFile t) (f : Replay → Replay)
    (hf : ∀ m : RegisterMap UInt64, m.get? = r.debugger.register → f (r.withRegisters m) = (f r).withRegisters m) :
    (f r).SameFile (f t) := by
  obtain ⟨m, hm, rfl⟩ := h
  have hkept : (f r).debugger.registers = r.debugger.registers :=
    congrArg (·.debugger.registers) (hf r.debugger.registers rfl)
  refine ⟨m, ?_, hf m hm⟩
  rw [hm]
  exact congrArg RegisterMap.get? hkept.symm

/-- Values written into two maps with the same register file leave the same register file. -/
theorem get?_insert_congr {m n : RegisterMap UInt64} (h : m.get? = n.get?) (register : Register) (value : UInt64) :
    (m.insert register value).get? = (n.insert register value).get? := by
  funext s
  rw [RegisterMap.get?_insert, RegisterMap.get?_insert, h]

theorem SameFile.stoppedAt {r t : Replay} (h : r.SameFile t) (e : Event) :
    (r.stoppedAt e).SameFile (t.stoppedAt e) := by
  obtain ⟨m, hm, rfl⟩ := h
  unfold Replay.stoppedAt
  split
  · exact ⟨_, get?_insert_congr hm _ _, rfl⟩
  · exact ⟨m, hm, rfl⟩

theorem reanalyze_advance_withRegisters {m : RegisterMap UInt64} {r : Replay} (hm : m.get? = r.debugger.register)
    (analysis : Shadow) : ((r.withRegisters m).advance analysis).arm.reanalyze.1 =
      (r.advance analysis).arm.reanalyze.1.withRegisters m := by
  have hregister : m.get? = (r.advance analysis).arm.debugger.register := by
    rw [hm]
    exact (register_of_control (r.control_advance analysis)).symm
  rw [advance_withRegisters]
  exact congrArg Prod.fst (reanalyze_withRegisters hregister)

/-- A step that is no event and sets no registers does the same whatever the map of registers is. -/
theorem apply_withRegisters {m : RegisterMap UInt64} {r : Replay} (hm : m.get? = r.debugger.register) {step : Step}
    (hevent : ∀ e, step ≠ .event e) (hvalues : ∀ values, step ≠ .registers values) :
    Replay.apply (r.withRegisters m) step = (r.apply step).withRegisters m := by
  cases step with
  | event e => exact absurd rfl (hevent e)
  | registers values => exact absurd rfl (hvalues values)
  | write start bytes =>
    unfold Replay.apply
    dsimp only
    rw [apply_ite (withRegisters m)]
    rfl
  | breakAndTaint a register =>
    have hbreaks : Debugger.hasBreakpoint (r.withRegisters m).debugger a = Debugger.hasBreakpoint r.debugger a := rfl
    unfold Replay.apply breakAndRun
    dsimp only
    rw [hbreaks]
    split <;> rfl
  | taintRegister register =>
    have hanalysis : (r.withRegisters m).analysis = r.analysis := rfl
    unfold Replay.apply Session.taintRegister
    dsimp only
    rw [hanalysis]
    cases Analyzer.taintRegister r.analysis register with
    | ok analysis => exact reanalyze_advance_withRegisters hm analysis
    | error cause => rfl
  | taintMemory start length => exact reanalyze_advance_withRegisters hm _
  | function _ | setBreakpoint _ | answer _ | enableStepTrace => rfl

/-! ## The values of a step -/

/-- Sets registers one after the other. -/
def setRegisters (d : Recorder) (values : List (String × UInt64)) : Recorder :=
  values.foldl (fun d (name, value) => d.setRegister name value) d

/-- The last of the values for a register. -/
def lastValue (values : List (String × UInt64)) (register : Register) : Option UInt64 :=
  (values.filter fun x => Register.ofName x.1 = register).getLast?.map (·.2)

/-- Values for one register are equal. -/
def Agree (values : List (String × UInt64)) : Prop :=
  ∀ x ∈ values, ∀ y ∈ values, Register.ofName x.1 = Register.ofName y.1 → x.2 = y.2

variable {values others : List (String × UInt64)} {register : Register} {value : UInt64}

theorem lastValue_append (values others : List (String × UInt64)) (register : Register) :
    lastValue (values ++ others) register = (lastValue others register).or (lastValue values register) := by
  rw [lastValue, List.filter_append, List.getLast?_append, Option.map_or]
  rfl

/-- A register that is set several times has the last of the values, and one that is not keeps its own. -/
theorem register_setRegisters (values : List (String × UInt64)) : ∀ d : Recorder,
    (setRegisters d values).register register = (lastValue values register).or (d.register register) := by
  induction values with
  | nil => exact fun _ => rfl
  | cons x values ih =>
    intro d
    obtain ⟨name, value⟩ := x
    have hfirst : (d.setRegister name value).register register =
        (lastValue [(name, value)] register).or (d.register register) := by
      rw [Recorder.register_setRegister]
      by_cases h : Register.ofName name = register
      · simp [lastValue, h]
      · simp [lastValue, h, Ne.symm h]
    calc (setRegisters (d.setRegister name value) values).register register
        = (lastValue values register).or ((lastValue [(name, value)] register).or (d.register register)) := by
          rw [ih, hfirst]
      _ = (lastValue ((name, value) :: values) register).or (d.register register) := by
          rw [← Option.or_assoc, ← lastValue_append, List.singleton_append]

theorem mem_of_lastValue (h : lastValue values register = some value) :
    ∃ x ∈ values, Register.ofName x.1 = register ∧ x.2 = value := by
  obtain ⟨x, hx, rfl⟩ := Option.map_eq_some_iff.1 h
  obtain ⟨hmem, hname⟩ := List.mem_filter.1 (List.mem_of_getLast? hx)
  exact ⟨x, hmem, of_decide_eq_true hname, rfl⟩

/-- If the values agree, each of them is the last for its register. -/
theorem Agree.lastValue_eq_some_iff (h : Agree values) : lastValue values register = some value ↔
    ∃ x ∈ values, Register.ofName x.1 = register ∧ x.2 = value := by
  refine ⟨mem_of_lastValue, ?_⟩
  rintro ⟨x, hx, rfl, rfl⟩
  cases hlast : lastValue values (Register.ofName x.1) with
  | none =>
    rw [lastValue, Option.map_eq_none_iff, List.getLast?_eq_none_iff, List.filter_eq_nil_iff] at hlast
    simpa using hlast x hx
  | some last =>
    obtain ⟨y, hy, hname, rfl⟩ := mem_of_lastValue hlast
    rw [h x hx y hy hname.symm]

theorem Agree.perm (h : Agree values) (hperm : others.Perm values) : Agree others := fun x hx y hy =>
  h x (hperm.mem_iff.1 hx) y (hperm.mem_iff.1 hy)

/-- Values that agree give one register file in every order. -/
theorem Agree.lastValue_perm (h : Agree values) (hperm : others.Perm values) :
    lastValue others register = lastValue values register := by
  ext value
  rw [(h.perm hperm).lastValue_eq_some_iff, h.lastValue_eq_some_iff]
  simp only [hperm.mem_iff]

/-- Values that give one register file in every order agree: any of them could come last. -/
theorem agree_of_forall_perm {d : Recorder} (h : ∀ others : List (String × UInt64), others.Perm values →
    (setRegisters d others).register = (setRegisters d values).register) : Agree values := by
  -- put an entry last, and its register has its value in every order
  have hlast (x) (hx : x ∈ values) : (setRegisters d values).register (Register.ofName x.1) = some x.2 := by
    have hperm : (values.erase x ++ [x]).Perm values :=
      (List.perm_append_singleton x _).trans (List.perm_cons_erase hx).symm
    rw [← h _ hperm, register_setRegisters, lastValue_append]
    simp [lastValue]
  intro x hx y hy hname
  have hxy := hlast x hx
  rw [hname, hlast y hy] at hxy
  exact (Option.some.inj hxy).symm

/-! ## Runs -/

/-- The second step is the first, except that the values of registers may come in another order if they agree. -/
inductive Reordered : Step → Step → Prop
  | refl (step : Step) : Reordered step step
  | registers {values others : List (String × UInt64)} (perm : others.Perm values) (agree : Agree values) :
      Reordered (.registers values) (.registers others)

/-- Values may be set in another order if it has the same last ones. -/
theorem SameFile.registers {r t : Replay} (h : r.SameFile t)
    (hlast : ∀ register, lastValue others register = lastValue values register) :
    (r.apply (.registers values)).SameFile (t.apply (.registers others)) := by
  obtain ⟨m, hm, rfl⟩ := h
  obtain ⟨n, hn⟩ := exists_foldl_setRegister_eq others { r.debugger with registers := m }
  obtain ⟨k, hk⟩ := exists_foldl_setRegister_eq values r.debugger
  have hset : Replay.apply (r.withRegisters m) (.registers others) = (r.apply (.registers values)).withRegisters n := by
    unfold Replay.apply
    dsimp only
    rw [hk]
    exact congrArg (fun debugger => ({ r with debugger } : Replay)) hn
  have hothers : n.get? = (setRegisters { r.debugger with registers := m } others).register :=
    congrArg Recorder.register hn.symm
  refine ⟨n, ?_, hset⟩
  rw [hothers]
  funext register
  show _ = (setRegisters r.debugger values).register register
  rw [register_setRegisters, register_setRegisters, hlast]
  exact congrArg (Option.or _) (congrFun hm register)

/-- Sessions stay the same with every step, also if its values come in another order. -/
theorem SameFile.apply {r t : Replay} (h : r.SameFile t) {step other : Step} (hstep : Reordered step other) :
    (r.apply step).SameFile (t.apply other) := by
  cases hstep with
  | registers hperm hagree => exact h.registers fun _ => hagree.lastValue_perm hperm
  | refl =>
    cases step with
    | event e =>
      show (r.deliver e).SameFile (t.deliver e)
      rw [deliver_eq, deliver_eq]
      exact (h.stoppedAt e).congr (Session.handle · e) fun m hm => handle_withRegisters hm e
    | registers values => exact h.registers fun _ => rfl
    | _ => exact h.congr (Replay.apply · _) fun m hm => apply_withRegisters hm nofun nofun

theorem SameFile.after {steps others : List Step} (hsteps : List.Forall₂ Reordered steps others) :
    ∀ {r t : Replay}, r.SameFile t → (r.after steps).SameFile (t.after others) := by
  induction hsteps with
  | nil => exact fun h => h
  | cons hstep _ ih => exact fun h => ih (h.apply hstep)

/-- When a step that sets registers has one meaning. In every session, all orders of its values give the same register
file iff values for one register are equal. The steps of a script whose values agree may come with these in any order:
the report is the same. -/
theorem registers_unordered (r : Replay) (values : List (String × UInt64)) (own : Option Options) (options : Options)
    (image : Image) (steps : List Step) :
    ((∀ others : List (String × UInt64), others.Perm values →
      (r.apply (.registers others)).debugger.register = (r.apply (.registers values)).debugger.register) ↔
        Agree values) ∧
      ∀ others : List Step, List.Forall₂ Reordered steps others →
        Report.of (run ⟨own, others⟩ image options) = Report.of (run ⟨own, steps⟩ image options) := by
  refine ⟨⟨agree_of_forall_perm, fun hagree others hperm => ?_⟩, fun others hsteps => ?_⟩
  · funext register
    show (setRegisters r.debugger others).register register = (setRegisters r.debugger values).register register
    rw [register_setRegisters, register_setRegisters, hagree.lastValue_perm hperm]
  · exact (SameFile.after hsteps (.refl (start (own.getD options) image))).report

/-- Two names of the flags register with two values: which way a branch is reported to go depends on their order. -/
theorem exists_order_matters :
    let image : Image := { segments := [⟨0x1000, #[0x74, 0x05], by decide⟩] }
    let report (values : List (String × UInt64)) : Report := Report.of (run
      ⟨some { useSymbols := true }, [.event .processStart, .registers values, .taintRegister "rflags"]⟩ image {})
    let values : List (String × UInt64) := [("rip", 0x1000), ("rflags", 0x40), ("eflags", 0)]
    let others : List (String × UInt64) := [("rip", 0x1000), ("eflags", 0), ("rflags", 0x40)]
    others.Perm values ∧ (report values).constraints = [⟨1, 0x1000, 0x1002, 0x1007⟩] ∧
      (report others).constraints = [⟨1, 0x1000, 0x1007, 0x1002⟩] := by
  decide +kernel

end Replay

end TaintReplay
