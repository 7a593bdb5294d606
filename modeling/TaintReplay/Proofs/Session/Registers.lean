import TaintReplay.Proofs.Session.Edit

/-!
# Sessions look registers up

A session does not look at the map of registers but through the register file. `Session.withRegisters` is a session with
another map, which is an edit (`Edit.ofRegisters`). Whatever a session does, it does it as well with a map that gives
the same register file, and does not touch the map (`trace_withRegisters`, `stepOn_withRegisters`,
`askAtLimit_withRegisters`).
-/

namespace TaintReplay

namespace Session

section Report

variable {α ε : Type}

/-- The session with another map of registers. -/
def withRegisters (m : RegisterMap UInt64) (s : Session α ε Recorder) : Session α ε Recorder :=
  { s with debugger := { s.debugger with registers := m } }

variable (m : RegisterMap UInt64) (s : Session α ε Recorder)

theorem inform_withRegisters (component : Component) (text : String) :
    (s.withRegisters m).inform component text = (s.inform component text).withRegisters m := by
  unfold inform
  rw [apply_ite (withRegisters m)]
  rfl

theorem detail_withRegisters (component : Component) (text : String) :
    (s.withRegisters m).detail component text = (s.detail component text).withRegisters m := by
  unfold detail
  rw [apply_ite (withRegisters m)]
  rfl

section Analyzer

variable [Analyzer ε]

theorem announce_registers (old new : ε) (d : Recorder) :
    announce old new { d with registers := m } = { announce old new d with registers := m } :=
  announce_edit (.ofRegisters m) old new d

theorem advance_withRegisters (analysis : ε) :
    (s.withRegisters m).advance analysis = (s.advance analysis).withRegisters m :=
  s.advance_edit (.ofRegisters m) analysis

end Analyzer

end Report

/-! ## Traces -/

section Trace

variable {α : Type} {m : RegisterMap UInt64} {s : Session α Shadow Recorder} (hm : m.get? = s.debugger.register)
include hm

theorem trace_withRegisters (pc thread : UInt64) :
    (s.withRegisters m).trace pc thread = ((s.trace pc thread).1.withRegisters m, (s.trace pc thread).2) :=
  trace_edit (e := .ofRegisters m) hm pc thread

theorem observe_withRegisters (thread pc : UInt64) :
    (s.withRegisters m).observe thread pc = (s.observe thread pc).withRegisters m :=
  observe_edit (e := .ofRegisters m) hm thread pc

theorem reanalyze_withRegisters :
    (s.withRegisters m).reanalyze = (s.reanalyze.1.withRegisters m, s.reanalyze.2) := by
  have hregister : Debugger.register (s.withRegisters m).debugger = Debugger.register s.debugger := hm
  unfold reanalyze
  rw [hregister]
  cases Debugger.register s.debugger .counter with
  | none => rfl
  | some pc =>
    dsimp only
    rw [inform_withRegisters]
    generalize hs : s.inform .events _ = t
    have ht : m.get? = t.debugger.register := by
      rw [hm, ← hs]
      exact (register_of_control (s.control_inform _ _)).symm
    exact trace_withRegisters ht pc _

end Trace

/-! ## Events -/

section Event

variable {α ε : Type} (m : RegisterMap UInt64) (s : Session α ε Recorder)

theorem stepOn_withRegisters : (s.withRegisters m).stepOn = s.stepOn.withRegisters m := by
  unfold stepOn
  rw [apply_ite (withRegisters m)]
  congr 1
  rw [show (s.withRegisters m).progress.current = s.progress.current from rfl]
  cases s.progress.current with
  | none => rfl
  | some i =>
    dsimp only
    rw [apply_ite (withRegisters m)]
    rfl

theorem ask_registers (d : Recorder) (question : String) : Recorder.ask { d with registers := m } question =
    ({ (d.ask question).1 with registers := m }, (d.ask question).2) := by
  obtain ⟨_, _, _, _, answers, _⟩ := d
  cases answers <;> rfl

theorem askAtLimit_withRegisters (limit : Nat) :
    (s.withRegisters m).askAtLimit limit = (s.askAtLimit limit).withRegisters m := by
  have hask (question : String) : Debugger.ask (s.withRegisters m).debugger question =
      ({ (s.debugger.ask question).1 with registers := m }, (s.debugger.ask question).2) :=
    ask_registers m s.debugger question
  have htotal : (s.withRegisters m).progress.total = s.progress.total := rfl
  unfold askAtLimit
  rw [apply_ite (withRegisters m), htotal]
  congr 1
  dsimp only
  rw [hask]
  dsimp only [Debugger.ask]
  generalize s.debugger.ask _ = asked
  obtain ⟨debugger, answer⟩ := asked
  cases answer <;> rfl

end Event

end Session

end TaintReplay
