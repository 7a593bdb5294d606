import TaintReplay.Proofs.Image.Access
import TaintReplay.Proofs.Session.Trace
import TaintReplay.X86.Locality

/-!
# Fetching and decoding agree

A trace asks three times what stands at an address: for the length of the instruction, for its bytes, and for the
decoded instruction. All three look at the same bytes (`Recorder.codeAt`), and an instruction depends on its own bytes
alone, so they agree (`fetch_of_decode`, `fetch_of_not_decode`). Hence an armed trace has two courses only. Where the
bytes decode it reports the instruction (`trace_of_decode`), and else it is given up before anything is disassembled
(`trace_of_not_decode`).
-/

namespace TaintReplay

/-- The bytes at an address that an instruction there may have. -/
def Recorder.codeAt (r : Recorder) (pc : UInt64) : List UInt8 := r.image.read pc maxInstructionLength

/-- The record of the instruction that some code begins with, before it is evaluated. -/
def recordOf (d : X86.Instruction) (code : List UInt8) (pc thread : UInt64) : Instruction :=
  Shadow.describe d (({ address := pc, thread } : Instruction).withOpcode (code.take d.length))

/-! ## Fetching -/

section Fetch

variable {r : Recorder} {pc thread : UInt64} {d : X86.Instruction}

/-- What decodes is fetched whole. -/
theorem fetch_of_decode (h : X86.decode (r.codeAt pc) = some d) (thread : UInt64) :
    fetch r pc thread = .ok (({ address := pc, thread } : Instruction).withOpcode ((r.codeAt pc).take d.length)) := by
  have hlength : Debugger.instructionLength r pc = some d.length := by
    show (X86.decode (r.codeAt pc)).map (·.length) = _
    rw [h]
    rfl
  have hpos : 0 < d.length := X86.length_pos_of_decode h
  have hle : d.length ≤ (r.codeAt pc).length := X86.length_le_of_decode h
  have hmax : d.length ≤ maxInstructionLength := Nat.le_trans hle (r.image.length_read_le pc maxInstructionLength)
  have hread : Debugger.read r pc maxInstructionLength = r.codeAt pc := rfl
  unfold fetch
  rw [hlength, hread]
  dsimp only
  rw [if_pos ⟨hpos, hmax⟩, if_neg (Nat.not_lt.2 hle)]

/-- What does not decode has no length, and is not fetched. -/
theorem fetch_of_not_decode (h : X86.decode (r.codeAt pc) = none) (thread : UInt64) :
    fetch r pc thread = .error (.decode pc) := by
  have hlength : Debugger.instructionLength r pc = none := by
    show (X86.decode (r.codeAt pc)).map (·.length) = _
    rw [h]
    rfl
  unfold fetch
  rw [hlength]

/-- The record holds the bytes of the instruction, and no others. -/
theorem opcode_recordOf (r : Recorder) (d : X86.Instruction) (pc thread : UInt64) :
    (recordOf d (r.codeAt pc) pc thread).opcode = (r.codeAt pc).take d.length := by
  have hmax : (r.codeAt pc).length ≤ maxInstructionLength := r.image.length_read_le pc maxInstructionLength
  show ((r.codeAt pc).take d.length).take maxInstructionLength = _
  rw [List.take_of_length_le]
  exact Nat.le_trans (List.length_take_le' _ _) hmax

theorem next_recordOf (h : X86.decode (r.codeAt pc) = some d) (thread : UInt64) :
    (recordOf d (r.codeAt pc) pc thread).next = pc + UInt64.ofNat d.length := by
  have hopcode := opcode_recordOf r d pc thread
  have hlength : ((r.codeAt pc).take d.length).length = d.length :=
    List.length_take_of_le (X86.length_le_of_decode h)
  show pc + UInt64.ofNat (recordOf d (r.codeAt pc) pc thread).opcode.length = _
  rw [hopcode, hlength]

end Fetch

/-! ## Traces -/

namespace Session

variable {α : Type} {s : Session α Shadow Recorder} {pc : UInt64} {d : X86.Instruction}

/-- An armed trace reports the instruction that stands at its address. -/
theorem trace_of_decode (harmed : s.progress.armed = true) (h : X86.decode (s.debugger.codeAt pc) = some d)
    (thread : UInt64) :
    let i := recordOf d (s.debugger.codeAt pc) pc thread
    let stepped := s.analysis.step d i s.debugger.register
    s.trace pc thread = (((s.setCurrent { address := pc, thread }).inform .tracing ("[+] Tracing " ++ i.render)).advance
      stepped.1).report stepped.2 := by
  have hfetch := fetch_of_decode h thread
  have hwhole : X86.decodeWhole (recordOf d (s.debugger.codeAt pc) pc thread).opcode = some d := by
    rw [opcode_recordOf]
    exact X86.decodeWhole_take h
  unfold recordOf at hwhole ⊢
  generalize ({ address := pc, thread } : Instruction).withOpcode _ = fetched at hfetch hwhole ⊢
  have htrace := trace_decoded harmed hfetch hwhole
  dsimp only at htrace
  rwa [register_inform] at htrace

/-- An armed trace is given up where there is no instruction, before anything is disassembled. -/
theorem trace_of_not_decode (harmed : s.progress.armed = true) (h : X86.decode (s.debugger.codeAt pc) = none)
    (thread : UInt64) :
    s.trace pc thread = (s.setCurrent { address := pc, thread }).abandon (.decode pc) :=
  trace_unfetched harmed (fetch_of_not_decode h thread)

end Session

end TaintReplay
