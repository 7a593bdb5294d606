import TaintReplay.Proofs.Session.Trace
import TaintReplay.Rehearsal.Host

/-!
# Traces that are given up

Whatever the debugger answers, a trace that is given up writes one line and leaves a record of its address and thread
with nothing in it (`Instruction.Bare`) as the current instruction; all else stays as it was (`abandon_setCurrent`,
`debugger_gaveUp`). It cannot be given up later than that: what the shadow state disassembles it also evaluates. So an
armed trace always leaves a record of its own, and one that succeeds leaves the record that its outcome tells of
(`current_of_armed`).
-/

namespace TaintReplay

/-- The record of an instruction of which only its place is known, and perhaps its bytes. -/
structure Instruction.Bare (i : Instruction) (pc thread : UInt64) : Prop where
  address : i.address = pc
  thread : i.thread = thread
  tainted : i.tainted = false
  symbolized : i.symbolized = false
  branch : i.branch = false
  operands : i.operands = []
  expressions : i.expressions = []

theorem Instruction.bare_fresh (pc thread : UInt64) : Bare { address := pc, thread } pc thread :=
  ⟨rfl, rfl, rfl, rfl, rfl, rfl, rfl⟩

/-- What has been fetched is not filled in yet. -/
theorem bare_of_fetch {η : Type} [Debugger η] {debugger : η} {pc thread : UInt64} {i : Instruction}
    (h : fetch debugger pc thread = .ok i) : i.Bare pc thread := by
  obtain ⟨bytes, rfl⟩ := Session.exists_of_fetch h
  exact ⟨rfl, rfl, rfl, rfl, rfl, rfl, rfl⟩

namespace Session

variable {α η : Type} [Debugger η] {s : Session α Shadow η} {pc thread : UInt64}

/-- The session after a trace that is given up: it has written a line, and `i` is its current instruction. -/
def gaveUp (s : Session α Shadow η) (cause : TraceError) (i : Instruction) : Session α Shadow η :=
  { s with
    debugger := Debugger.say s.debugger ⟨.warn, .tracing, "[!] " ++ cause.message⟩
    progress := { s.progress with current := some i } }

/-- Of all that a recorder keeps, with faults or without, only its log changes. -/
theorem debugger_gaveUp (s : Session α Shadow Rehearsal.Host) (cause : TraceError) (i : Instruction) :
    let line : Line := ⟨.warn, .tracing, "[!] " ++ cause.message⟩
    (s.gaveUp cause i).debugger =
      { s.debugger with recorder := { s.debugger.recorder with log := s.debugger.recorder.log.push line } } := rfl

/-- Giving up with a bare record leaves everything else alone. -/
theorem abandon_setCurrent (s : Session α Shadow η) (cause : TraceError) (i : Instruction) :
    (s.setCurrent i).abandon cause = (s.gaveUp cause i, .abandoned cause) := rfl

/-- An armed trace always leaves a record of its own. If it is given up, the record is bare and the session is otherwise
the one before, but for the line that says why. If it is not, all operands of the record are trusted, and the record is
tainted and symbolic as the outcome says. -/
theorem current_of_armed (harmed : s.progress.armed = true) (pc thread : UInt64) :
    ∃ i : Instruction, (s.trace pc thread).1.progress.current = some i ∧ i.address = pc ∧ i.thread = thread ∧
      match (s.trace pc thread).2 with
      | .dormant => False
      | .abandoned cause => i.Bare pc thread ∧ (s.trace pc thread).1 = s.gaveUp cause i
      | .traced tainted symbolized _ =>
        (∀ o ∈ i.operands, o.trusted = true) ∧ i.tainted = tainted ∧ i.symbolized = symbolized := by
  cases hf : fetch s.debugger pc thread with
  | error cause =>
    rw [trace_unfetched harmed hf, abandon_setCurrent]
    exact ⟨_, rfl, rfl, rfl, Instruction.bare_fresh pc thread, rfl⟩
  | ok i =>
    have hi : i.Bare pc thread := bare_of_fetch hf
    cases hd : X86.decodeWhole i.opcode with
    | none =>
      rw [trace_undecoded harmed hf hd, abandon_setCurrent]
      exact ⟨i, rfl, hi.address, hi.thread, hi, rfl⟩
    | some d =>
      rw [trace_decoded harmed hf hd, report_snd, current_report]
      refine ⟨_, rfl, ?_, ?_, ?_, rfl, rfl⟩
      · show (Shadow.step _ _ _ _).2.address = pc
        rw [Shadow.address_step]
        exact hi.address
      · show (Shadow.step _ _ _ _).2.thread = thread
        rw [Shadow.step_snd]
        exact hi.thread
      · intro o ho
        obtain ⟨p, -, rfl⟩ := List.mem_map.1 ho
        rfl

/-- Two instructions that the debugger claims to be one are fetched, but given up. The record before was tainted. -/
theorem current_of_armed_merged :
    let code : Segment := { start := 0x1000, data := #[0x90, 0x90], inSpace := by decide }
    let host : Rehearsal.Host := { recorder.image.segments := [code], lengths := [(0x1000, some 2)] }
    let before : Instruction :=
      { address := 0xffe, thread := 3, tainted := true, operands := [{ kind := .register "al" }] }
    let s : Session Unit Shadow Rehearsal.Host :=
      { options := {}, analysis := {}, debugger := host, progress := { armed := true, current := some before } }
    let failure : TraceError := .disassembly 0x1000 [0x90, 0x90] (.invalidOpcode [0x90, 0x90])
    ∃ i, (s.trace 0x1000 7).1 = s.gaveUp failure i ∧ i.Bare 0x1000 7 ∧
      (s.trace 0x1000 7).1.debugger =
        { host with recorder := { host.recorder with log := #[⟨.warn, .tracing, "[!] " ++ failure.message⟩] } } := by
  intro code host before s failure
  have hcurrent := current_of_armed (s := s) rfl 0x1000 7
  have houtcome : (s.trace 0x1000 7).2 = .abandoned failure := by decide +kernel
  rw [houtcome] at hcurrent
  obtain ⟨i, -, -, -, hbare, hsession⟩ := hcurrent
  exact ⟨i, hsession, hbare, by rw [hsession, debugger_gaveUp]; rfl⟩

end Session

end TaintReplay
