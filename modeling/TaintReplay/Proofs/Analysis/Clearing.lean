import TaintReplay.Proofs.Analysis.Transfer
import TaintReplay.Proofs.X86.Difference

/-!
# What clears taint

A difference and an exclusive or clear their operands' taint if the two live in one place (`flow_of_difference`). That
is so for two operands of one name, and also for the low and the high byte of one word, although their difference
depends on both (`placeOf_eq_iff`); in all other cases taint moves on (`tainted_of_difference`). A register has one mark
for all of its parts. An instruction that overwrites a part with something clean cleans the whole register, and but for
these and for differences no instruction does (`isTainted_part`).
-/

namespace TaintReplay

/-- Where an operand lives when the instruction is evaluated. -/
def placeOf (d : X86.Instruction) (next : UInt64) (registers : RegisterFile) (o : X86.Operand) : Location :=
  (resolveOperand d next (some registers) o).2

/-- The operands are registers of one name, or the halves of one word. -/
def SharePlace : X86.Operand → X86.Operand → Prop
  | .register m, .register n => m.name = n.name ∨ X86.AreHalves m n
  | _, _ => False

instance (x y : X86.Operand) : Decidable (SharePlace x y) :=
  match x, y with
  | .register _, .register _ => inferInstanceAs (Decidable (_ ∨ _))
  | .masked .., _ | .immediate .., _ | .relative .., _ | .memory .., _ => isFalse id
  | .register _, .masked .. | .register _, .immediate .. | .register _, .relative .. | .register _, .memory .. =>
    isFalse id

section Flow

variable {d : X86.Instruction} {next : UInt64} {registers : RegisterFile}

theorem flow_eq (d : X86.Instruction) (next : UInt64) (registers : RegisterFile) : Flow.of d next registers =
    (Effect.of d.opcode (d.operands.map (placeOf d next registers))).flow d
      (d.operands.map (placeOf d next registers)) ((registers .rsp).getD 0) := by
  unfold Flow.of resolve
  rw [List.map_map]
  rfl

/-- Memory lives in memory or at an unknown place. -/
theorem placeOf_memory_ne {size : Option Nat} {segment : Option X86.Segment} {a : X86.Address} {l : Location}
    (hmemory : ∀ start, l ≠ .memory start d.memorySize) (hunknown : l ≠ .unknown) :
    placeOf d next registers (.memory size segment a) ≠ l := by
  unfold placeOf resolveOperand
  dsimp only
  split
  · exact (hmemory _).symm
  · exact hunknown.symm

/-- The operands of a difference live in one place only if they are registers of one name or the halves of a word. -/
theorem placeOf_eq_iff {x y : X86.Operand} (h : X86.DifferenceOperands [x, y]) :
    placeOf d next registers x = placeOf d next registers y ↔ SharePlace x y := by
  cases h with
  | registers hm hn => exact Location.register.injEq _ _ ▸ X86.full_eq_full_iff hm hn
  | load r => exact iff_of_false (placeOf_memory_ne (l := .register r.full) nofun nofun).symm id
  | store _ _ _ r => exact iff_of_false (placeOf_memory_ne (l := .register r.full) nofun nofun) id
  | registerImmediate => exact iff_of_false nofun id
  | memoryImmediate => exact iff_of_false (placeOf_memory_ne (l := .constant) nofun nofun) id

/-- A difference reads nothing if its operands live in one place, and both of them if not. -/
theorem flow_of_difference {x y : X86.Operand} (ho : d.opcode.isDifference = true) (hoperands : d.operands = [x, y]) :
    Flow.of d next registers =
      { sources :=
          if placeOf d next registers x = placeOf d next registers y then []
          else [placeOf d next registers x, placeOf d next registers y]
        destinations := [placeOf d next registers x, flagsLocation] } := by
  have heffect (l m : Location) : Effect.of d.opcode [l, m] = if l = m then .clear else .update := by
    cases hopcode : d.opcode with
    | xor | sub => rfl
    | _ =>
      rw [hopcode] at ho
      cases ho
  rw [flow_eq, hoperands]
  simp only [List.map_cons, List.map_nil, heffect]
  split <;> rfl

/-- Does the operation replace its first operand without looking at it? -/
def X86.Opcode.overwrites : X86.Opcode → Bool
  | mov | movzx | movsx | movsxd | lea | pop => true
  | _ => false

theorem X86.Opcode.overwrites_of_isDifference (opcode : X86.Opcode) (h : opcode.isDifference = true) :
    opcode.overwrites = false := by
  cases opcode with
  | xor | sub => rfl
  | _ => cases h

theorem destinations_of_overwrites {x : X86.Operand} {rest : List X86.Operand} (ho : d.opcode.overwrites = true)
    (hoperands : d.operands = x :: rest) :
    (Flow.of d next registers).destinations = [placeOf d next registers x] := by
  rw [flow_eq, hoperands]
  cases hopcode : d.opcode with
  | mov | movzx | movsx | movsxd | lea | pop => rfl
  | _ =>
    rw [hopcode] at ho
    cases ho

/-- An operation that does not overwrite its first operand reads it, or writes nothing, or is a difference. -/
theorem reads_of_not_overwrites {x : X86.Operand} {rest : List X86.Operand} (ho : d.opcode.overwrites = false)
    (hdifference : d.opcode.isDifference = false) (hoperands : d.operands = x :: rest) :
    placeOf d next registers x ∈ (Flow.of d next registers).sources ∨ (Flow.of d next registers).destinations = [] := by
  rw [flow_eq, hoperands]
  cases hopcode : d.opcode with
  | mov | movzx | movsx | movsxd | lea | pop =>
    rw [hopcode] at ho
    cases ho
  | xor | sub =>
    rw [hopcode] at hdifference
    cases hdifference
  | branch | jmp | call | ret | nop => exact .inr rfl
  | cmp | test | push | plain => exact .inl (List.mem_cons_self)

end Flow

namespace Shadow

variable (s : Shadow) {d : X86.Instruction} (i : Instruction) (registers : RegisterFile)

/-! ## Differences -/

section Difference

variable (hon : s.taintOn = true) {x y : X86.Operand} (hoperands : d.operands = [x, y])
  (ho : d.opcode.isDifference = true)
include hon hoperands ho

/-- A difference is tainted iff one of its operands is and they do not share their place. -/
theorem tainted_step_of_difference {bytes : List UInt8} (hd : X86.decode bytes = some d) :
    (s.step d i registers).2.tainted = true ↔
      ¬SharePlace x y ∧ ∃ o ∈ [x, y], ∃ c ∈ (placeOf d i.next registers o).cells, s.isTainted c = true := by
  have hpair := X86.operands_of_difference hd ho
  rw [hoperands] at hpair
  have hshare : placeOf d i.next registers x = placeOf d i.next registers y ↔ SharePlace x y := placeOf_eq_iff hpair
  rw [(s.movesTaint_step registers d i).tainted, flow_of_difference ho hoperands]
  by_cases h : SharePlace x y
  · simp [if_pos (hshare.2 h), h]
  · simp [if_neg (mt hshare.1 h), h, hon]

/-- What a difference writes is tainted iff the difference is. -/
theorem written_step_of_difference {l : Location} (hl : l ∈ [placeOf d i.next registers x, flagsLocation]) {c : Cell}
    (hc : c ∈ l.cells) : (s.step d i registers).1.isTainted c = (s.step d i registers).2.tainted := by
  have hwritten := (s.movesTaint_step registers d i).written hon
  rw [flow_of_difference ho hoperands] at hwritten
  exact hwritten l hl c hc

end Difference

/-- Only a difference whose operands share their place clears taint. All others are tainted iff an operand is, and so is
what they write. -/
theorem tainted_of_difference (hon : s.taintOn = true) (hd : X86.decodeWhole i.opcode = some d)
    (ho : d.opcode.isDifference = true) :
    ∃ x y j t k, d.operands = [x, y] ∧ Analyzer.disassemble s i = .ok j ∧
      Analyzer.evaluate s j registers = .ok (t, k) ∧
        (k.tainted = true ↔
          ¬SharePlace x y ∧ ∃ o ∈ [x, y], ∃ c ∈ (placeOf d j.next registers o).cells, s.isTainted c = true) ∧
        ∀ l ∈ [placeOf d j.next registers x, flagsLocation], ∀ c ∈ l.cells, t.isTainted c = k.tainted := by
  have hdecode := (X86.decode_of_decodeWhole hd).1
  obtain ⟨x, y, hoperands⟩ := (X86.operands_of_difference hdecode ho).exists_eq
  exact ⟨x, y, describe d i, (s.step d (describe d i) registers).1, (s.step d (describe d i) registers).2, hoperands,
    s.disassemble_of_decodes hd, s.evaluate_describe hd registers,
    s.tainted_step_of_difference _ registers hon hoperands ho hdecode,
    fun _ hl _ hc => s.written_step_of_difference _ registers hon hoperands ho hl hc⟩

/-- The exclusive or of the low byte of one word and the high byte of another moves the taint of the latter. -/
theorem tainted_of_difference_of_other_words :
    let s : Shadow := addSource {} (.register .rcx) "rcx"
    let i : Instruction := { address := 0x1000, thread := 1, opcode := [0x30, 0xe8] }
    ∃ j t k, Analyzer.disassemble s i = .ok j ∧ Analyzer.evaluate s j (fun _ => none) = .ok (t, k) ∧
      k.tainted = true ∧ t.isTainted (.register (.general 0)) = true := by
  intro s i
  obtain ⟨d, hd⟩ : ∃ d, X86.decodeWhole i.opcode = some d := Option.isSome_iff_exists.1 (by decide +kernel)
  have hdecoded : d = ⟨.xor, [.register ⟨.legacyByte, 0⟩, .register ⟨.legacyByte, 5⟩], [], 2⟩ :=
    Option.some.inj (hd.symm.trans (by decide +kernel))
  obtain ⟨x, y, j, t, k, hoperands, hj, hk, htainted, hwritten⟩ :=
    s.tainted_of_difference i (fun _ => none) rfl hd (by rw [hdecoded]; rfl)
  obtain ⟨rfl, rfl⟩ : X86.Operand.register ⟨.legacyByte, 0⟩ = x ∧ X86.Operand.register ⟨.legacyByte, 5⟩ = y := by
    simpa [hdecoded] using hoperands
  have hk' : k.tainted = true := htainted.2 ⟨by decide +kernel, _, .tail _ (.head _), .register .rcx,
    List.mem_singleton_self _, by decide +kernel⟩
  exact ⟨j, t, k, hj, hk, hk', (hwritten _ (.head _) _ (List.mem_singleton_self _)).trans hk'⟩

/-- The exclusive or of the halves of one tainted word is clean, and cleans the word, although it depends on both. -/
theorem exists_halves_cleared :
    let s : Shadow := addSource {} (.register (.general 0)) "rax"
    let i : Instruction := { address := 0x1000, thread := 1, opcode := [0x30, 0xe0] }
    let al : X86.Reg := ⟨.legacyByte, 0⟩
    let ah : X86.Reg := ⟨.legacyByte, 4⟩
    ∃ d j t k, X86.decodeWhole i.opcode = some d ∧ d.opcode = .xor ∧ d.operands = [.register al, .register ah] ∧
      al.name = "al" ∧ ah.name = "ah" ∧ Analyzer.disassemble s i = .ok j ∧
      Analyzer.evaluate s j (fun _ => none) = .ok (t, k) ∧ k.operands.map (·.tainted) = [true, true] ∧
      k.tainted = false ∧ t.isTainted (.register (.general 0)) = false ∧ t.isTainted (.register .flags) = false := by
  intro s i al ah
  have hd : X86.decodeWhole i.opcode = some ⟨.xor, [.register al, .register ah], [], 2⟩ := by decide +kernel
  refine ⟨_, _, _, _, hd, rfl, rfl, rfl, rfl, s.disassemble_of_decodes hd, s.evaluate_describe hd _, ?_, ?_, ?_, ?_⟩
  all_goals decide +kernel

/-! ## Parts of registers -/

section Part

variable (hon : s.taintOn = true) {r : X86.Reg} {rest : List X86.Operand}
  (hoperands : d.operands = .register r :: rest)
include hon hoperands

/-- An instruction that overwrites a register cleans it iff it reads no taint. -/
theorem isTainted_part_of_overwrites (hover : d.opcode.overwrites = true) :
    (s.step d i registers).1.isTainted (.register r.full) = (s.step d i registers).2.tainted := by
  have hwritten := (s.movesTaint_step registers d i).written hon
  rw [destinations_of_overwrites hover hoperands] at hwritten
  exact hwritten _ (List.mem_singleton_self _) _ (List.mem_singleton_self _)

/-- An instruction that neither overwrites a tainted register nor is a difference leaves it tainted. -/
theorem isTainted_part_of_not_overwrites (hr : s.isTainted (.register r.full) = true)
    (hover : d.opcode.overwrites = false) (hdifference : d.opcode.isDifference = false) :
    (s.step d i registers).1.isTainted (.register r.full) = true := by
  have hmoves := s.movesTaint_step registers d i
  -- what is written gets the taint of what is read, the register among it, and what is not written keeps its own
  by_cases hwritten : ∃ l ∈ (Flow.of d i.next registers).destinations, .register r.full ∈ l.cells
  · obtain ⟨l, hl, hc⟩ := hwritten
    rw [hmoves.written hon l hl _ hc, hmoves.tainted]
    rcases reads_of_not_overwrites hover hdifference hoperands with hreads | hnone
    · exact ⟨hon, _, hreads, _, List.mem_singleton_self _, hr⟩
    · rw [hnone] at hl
      cases hl
  · rw [hmoves.kept _ fun l hl hc => hwritten ⟨l, hl, hc⟩]
    exact hr

/-- A difference cleans a tainted register that is its first operand iff the second shares its place. -/
theorem isTainted_part_of_difference (hr : s.isTainted (.register r.full) = true)
    (ho : d.opcode.isDifference = true) {bytes : List UInt8} (hd : X86.decode bytes = some d) :
    (s.step d i registers).1.isTainted (.register r.full) = false ↔
      ∃ n, d.operands = [.register r, .register n] ∧ (r.name = n.name ∨ X86.AreHalves r n) := by
  obtain ⟨x, y, hpair⟩ := (X86.operands_of_difference hd ho).exists_eq
  obtain ⟨rfl, rfl⟩ : X86.Operand.register r = x ∧ rest = [y] := List.cons.inj (hoperands.symm.trans hpair)
  have htainted := s.tainted_step_of_difference i registers hon hpair ho hd
  have hread : ∃ o ∈ [.register r, y], ∃ c ∈ (placeOf d i.next registers o).cells, s.isTainted c = true :=
    ⟨_, List.mem_cons_self, _, List.mem_singleton_self _, hr⟩
  rw [and_iff_left hread] at htainted
  rw [s.written_step_of_difference i registers hon hpair ho List.mem_cons_self (List.mem_singleton_self _),
    ← Bool.not_eq_true, htainted, Classical.not_not, hpair]
  cases y with
  | register n => simp [SharePlace]
  | _ => simp [SharePlace]

end Part

/-- All parts of a register share its mark. An instruction whose first operand is a register, or a part of one, that is
tainted cleans it in two cases only: it overwrites the operand and reads no taint, or it is a difference of the operand
with itself. What the difference of the halves of a word does is left open. -/
theorem isTainted_part (hon : s.taintOn = true) (hd : X86.decodeWhole i.opcode = some d) {r : X86.Reg}
    {rest : List X86.Operand} (hoperands : d.operands = .register r :: rest)
    (hr : s.isTainted (.register r.full) = true)
    (hhalves : d.opcode.isDifference = true → ∀ n, d.operands = [.register r, .register n] → ¬X86.AreHalves r n) :
    ∃ j t k, Analyzer.disassemble s i = .ok j ∧ Analyzer.evaluate s j registers = .ok (t, k) ∧
      (t.isTainted (.register r.full) = false ↔
        d.opcode.overwrites = true ∧ k.tainted = false ∨
          d.opcode.isDifference = true ∧ ∃ n, d.operands = [.register r, .register n] ∧ r.name = n.name) := by
  have hdecode := (X86.decode_of_decodeWhole hd).1
  refine ⟨describe d i, (s.step d (describe d i) registers).1, (s.step d (describe d i) registers).2,
    s.disassemble_of_decodes hd, s.evaluate_describe hd registers, ?_⟩
  cases hdifference : d.opcode.isDifference with
  | true =>
    have hclears := s.isTainted_part_of_difference (describe d i) registers hon hoperands hr hdifference hdecode
    -- without halves, to share the place of the operand is to have its name
    have hname : (∃ n, d.operands = [.register r, .register n] ∧ (r.name = n.name ∨ X86.AreHalves r n)) ↔
        ∃ n, d.operands = [.register r, .register n] ∧ r.name = n.name :=
      exists_congr fun n => and_congr_right fun h => or_iff_left (hhalves hdifference n h)
    simpa [d.opcode.overwrites_of_isDifference hdifference] using hclears.trans hname
  | false =>
    cases hover : d.opcode.overwrites with
    | true =>
      have hreplaced := s.isTainted_part_of_overwrites (describe d i) registers hon hoperands hover
      simp [hreplaced]
    | false =>
      have hkept := s.isTainted_part_of_not_overwrites (describe d i) registers hon hoperands hr hover hdifference
      simp [hkept]

/-- A two-byte move from a clean register cleans the whole register that it writes to. -/
theorem isTainted_part_word :
    let s : Shadow := addSource {} (.register (.general 0)) "rax"
    let i : Instruction := { address := 0x1000, thread := 1, opcode := [0x66, 0x89, 0xd8] }
    ∃ j t k, Analyzer.disassemble s i = .ok j ∧ Analyzer.evaluate s j (fun _ => none) = .ok (t, k) ∧
      t.isTainted (.register (.general 0)) = false := by
  intro s i
  have hd : X86.decodeWhole i.opcode = some ⟨.mov, [.register ⟨.word, 0⟩, .register ⟨.word, 3⟩], [], 3⟩ := by
    decide +kernel
  obtain ⟨j, t, k, hj, hk, hpart⟩ := s.isTainted_part i (fun _ => none) rfl hd rfl (by decide +kernel) nofun
  obtain rfl : describe _ i = j := Except.ok.inj ((s.disassemble_of_decodes hd).symm.trans hj)
  have hstep : (s.step _ (describe _ i) _).2 = k :=
    congrArg Prod.snd (Except.ok.inj ((s.evaluate_describe hd _).symm.trans hk))
  have hclean : k.tainted = false := by
    rw [← hstep]
    decide +kernel
  exact ⟨_, t, k, hj, hk, hpart.2 (.inl ⟨rfl, hclean⟩)⟩

/-- A one-byte move of a constant cleans the whole register, of which it leaves seven bytes as they are. -/
theorem exists_part_cleaned :
    let s : Shadow := addSource {} (.register (.general 0)) "rax"
    let i : Instruction := { address := 0x1000, thread := 1, opcode := [0xb0, 0x05] }
    let al : X86.Reg := ⟨.legacyByte, 0⟩
    ∃ d j t k, X86.decodeWhole i.opcode = some d ∧ d.operands = [.register al, .immediate 5] ∧ al.size = 1 ∧
      s.isTainted (.register al.full) = true ∧ Analyzer.disassemble s i = .ok j ∧
      Analyzer.evaluate s j (fun _ => none) = .ok (t, k) ∧ t.isTainted (.register al.full) = false := by
  intro s i al
  have hd : X86.decodeWhole i.opcode = some ⟨.mov, [.register al, .immediate 5], [], 2⟩ := by decide +kernel
  refine ⟨_, _, _, _, hd, rfl, rfl, ?_, s.disassemble_of_decodes hd, s.evaluate_describe hd _, ?_⟩
  all_goals decide +kernel

end Shadow

end TaintReplay
