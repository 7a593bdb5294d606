import TaintReplay.Proofs.Analysis.Clearing
import TaintReplay.Proofs.Analysis.Union

/-!
# What pushes and pops move

A push and a pop have one operand (`operands_of_movesStack`). Whatever its width, a push gives its taint to the eight
bytes below the stack pointer and leaves all other bytes alone, and a pop reads the eight bytes from the stack pointer
on (`flow_of_push`, `flow_of_pop`, `stack_moves_slot`). For an operand of two bytes these are six bytes too many:
pushing one marks its neighbours, and popping one reads them (`exists_neighbours_moved`).
-/

namespace TaintReplay

namespace X86

/-- Is it a push or a pop? -/
def Opcode.movesStack : Opcode → Bool
  | push | pop => true
  | _ => false

theorem Opcode.isPlain_of_movesStack {opcode : Opcode} (ho : opcode.movesStack = true) : opcode.isPlain = false := by
  cases opcode with
  | plain => cases ho
  | _ => rfl

theorem length_slots_of_mem_rows (page : Page) :
    ∀ row ∈ page.rows, row.opcode.movesStack = true → row.slots.length = 1 := by
  cases page <;> decide +kernel

/-- A push and a pop have one operand. -/
theorem operands_of_movesStack {bytes : List UInt8} {i : Instruction} (h : decode bytes = some i)
    (ho : i.opcode.movesStack = true) : ∃ o, i.operands = [o] := by
  obtain ⟨e, row, address, hread⟩ := exists_readBy_of_decode h
  obtain ⟨_, _, hreadSlots⟩ := hread.read
  rw [hread.opcode] at ho
  have hslots : row.slots.length = 1 := length_slots_of_mem_rows e.page row
    (e.mem_rows_of_row? hread.selected (Opcode.isPlain_of_movesStack ho)) ho
  have hoperands :=
    yields_readSlots (R := fun _ _ => True) e row.slots (fun _ _ => Reader.yields_any _) _ _ _ hreadSlots
  exact List.length_eq_one_iff.1 (hoperands.length_eq.symm.trans hslots)

end X86

/-! ## Flows -/

section Flow

variable {d : X86.Instruction} {next : UInt64} {registers : RegisterFile} {stack : UInt64} {o : X86.Operand}

/-- A push reads its operand and writes the slot below the stack pointer. -/
theorem flow_of_push (ho : d.opcode = .push) (hstack : registers .rsp = some stack) (hoperands : d.operands = [o]) :
    Flow.of d next registers =
      { sources := [placeOf d next registers o], destinations := [.memory (stack - 8) stackSlot] } := by
  rw [flow_eq, ho, hstack, hoperands]
  rfl

/-- A pop reads the slot at the stack pointer and writes its operand. -/
theorem flow_of_pop (ho : d.opcode = .pop) (hstack : registers .rsp = some stack) (hoperands : d.operands = [o]) :
    Flow.of d next registers =
      { sources := [.memory stack stackSlot], destinations := [placeOf d next registers o] } := by
  rw [flow_eq, ho, hstack, hoperands]
  rfl

end Flow

namespace Shadow

variable (s : Shadow) {d : X86.Instruction} (i : Instruction) (registers : RegisterFile)

/-! ## Cells that an instruction leaves alone -/

/-- The cell has the same marks in both states. -/
structure SameMarks (s t : Shadow) (c : Cell) : Prop where
  tainted : t.isTainted c = s.isTainted c
  symbol : t.symbols.get? c = s.symbols.get? c

theorem SameMarks.trans {s t u : Shadow} {c : Cell} (h₁ : s.SameMarks t c) (h₂ : t.SameMarks u c) : s.SameMarks u c :=
  ⟨h₂.tainted.trans h₁.tainted, h₂.symbol.trans h₁.symbol⟩

theorem SameMarks.isSymbolic {s t : Shadow} {c : Cell} (h : s.SameMarks t c) : t.isSymbolic c = s.isSymbolic c := by
  rw [Shadow.isSymbolic, Shadow.isSymbolic, h.symbol]

/-- An instruction that is no branch keeps the marks of the cells that it does not write. -/
theorem sameMarks_step (hb : d.opcode.branch? = none) {c : Cell}
    (hc : ∀ l ∈ (Flow.of d (describe d i).next registers).destinations, c ∉ l.cells) :
    s.SameMarks (s.step d (describe d i) registers).1 c where
  tainted := (s.movesTaint_step registers d _).kept c hc
  symbol := by
    have hbranch : (describe d i).branch = false := by
      show d.opcode.branch?.isSome = false
      rw [hb]
      rfl
    refine (s.movesSymbols_step registers rfl).kept c fun l hl => hc l ?_
    rw [hbranch] at hl
    rcases List.mem_append.1 hl with hl | hl
    · exact hl
    · unfold Flow.renewed at hl
      split at hl
      · simpa using hl
      · cases hl

/-! ## Slots -/

/-- A value is put into the bytes from `start` on, as many as `width`: while taint is on they get its taint, and all
other bytes keep their marks. -/
structure Stored (start : UInt64) (width : Nat) (tainted : Bool) (s t : Shadow) : Prop where
  written : ∀ c ∈ (Location.memory start width).cells, t.isTainted c = if s.taintOn then tainted else s.isTainted c
  kept : ∀ a, .byte a ∉ (Location.memory start width).cells → s.SameMarks t (.byte a)

/-- A value is taken from the bytes from `start` on, as many as `width`: it is tainted iff taint is on and one of them
is tainted. -/
def Loaded (start : UInt64) (width : Nat) (s : Shadow) (tainted : Bool) : Prop :=
  tainted = true ↔ s.taintOn = true ∧ ∃ c ∈ (Location.memory start width).cells, s.isTainted c = true

instance (start : UInt64) (width : Nat) (s : Shadow) (tainted : Bool) : Decidable (s.Loaded start width tainted) :=
  inferInstanceAs (Decidable (_ ↔ _))

section Slot

variable {stack : UInt64} {registers} (hstack : registers .rsp = some stack) {o : X86.Operand}
  (hoperands : d.operands = [o])
include hstack hoperands

/-- A push stores what it pushes in the eight bytes below the stack pointer. -/
theorem stored_of_push (ho : d.opcode = .push) :
    s.Stored (stack - 8) stackSlot (s.step d (describe d i) registers).2.tainted
      (s.step d (describe d i) registers).1 where
  written c hc := by
    have hmoves := s.movesTaint_step registers d (describe d i)
    rw [flow_of_push ho hstack hoperands] at hmoves
    cases hon : s.taintOn with
    | true => exact hmoves.written hon _ (List.mem_singleton_self _) c hc
    | false => exact congrArg (fun m : Marks Unit => (m.get? c).isSome) (hmoves.off hon)
  kept a ha := by
    refine s.sameMarks_step i registers (by rw [ho]; rfl) fun l hl => ?_
    rw [flow_of_push ho hstack hoperands] at hl
    rwa [List.mem_singleton.1 hl]

/-- A pop loads the eight bytes from the stack pointer on. -/
theorem loaded_of_pop (ho : d.opcode = .pop) :
    s.Loaded stack stackSlot (s.step d (describe d i) registers).2.tainted := by
  have hmoves := s.movesTaint_step registers d (describe d i)
  rw [flow_of_pop ho hstack hoperands] at hmoves
  simpa [Loaded] using hmoves.tainted

/-- The operand of a push has the taint of the push. -/
theorem operands_step_of_push (ho : d.opcode = .push) : ∃ operand,
    (s.step d (describe d i) registers).2.operands = [operand] ∧
      operand.tainted = (s.step d (describe d i) registers).2.tainted := by
  have htaints := s.taints_operandsOf registers d (describe d i).next
  have hresolved : resolve d (describe d i).next (some registers) =
      [resolveOperand d (describe d i).next (some registers) o] := by
    unfold resolve
    rw [hoperands]
    rfl
  rw [← operands_step, hresolved] at htaints
  obtain ⟨operand, hone, htainted⟩ := List.map_eq_singleton_iff.1 htaints
  refine ⟨operand, hone, ?_⟩
  rw [htainted, tainted_step, flow_of_push ho hstack hoperands]
  simp [readsTaint, placeOf]

end Slot

/-- Pushes and pops move eight bytes, however wide their operand is. A push puts the taint of its operand into the eight
bytes below the stack pointer and changes no other byte, and a pop is tainted iff one of the eight bytes from the stack
pointer on is. -/
theorem stack_moves_slot (hd : X86.decodeWhole i.opcode = some d) (ho : d.opcode.movesStack = true) {stack : UInt64}
    (hstack : registers .rsp = some stack) :
    ∃ o j t k, d.operands = [o] ∧ Analyzer.disassemble s i = .ok j ∧ Analyzer.evaluate s j registers = .ok (t, k) ∧
      (d.opcode = .push → ∃ operand, k.operands = [operand] ∧ s.Stored (stack - 8) 8 operand.tainted t) ∧
      (d.opcode = .pop → s.Loaded stack 8 k.tainted) := by
  obtain ⟨o, hoperands⟩ := X86.operands_of_movesStack (X86.decode_of_decodeWhole hd).1 ho
  refine ⟨o, describe d i, (s.step d (describe d i) registers).1, (s.step d (describe d i) registers).2, hoperands,
    s.disassemble_of_decodes hd, s.evaluate_describe hd registers, fun hpush => ?_,
    s.loaded_of_pop i hstack hoperands⟩
  obtain ⟨operand, hone, htainted⟩ := s.operands_step_of_push i hstack hoperands hpush
  exact ⟨operand, hone, htainted ▸ s.stored_of_push i hstack hoperands hpush⟩

/-- A push of a tainted register taints the eight bytes below the stack pointer, also where this is at zero. -/
theorem stack_moves_slot_wrapping :
    let s : Shadow := addSource {} (.register (.general 7)) "rdi"
    let i : Instruction := { address := 0x1000, thread := 1, opcode := [0x57] }
    let registers : RegisterFile := fun r => if r = .rsp then some 0 else none
    ∃ j t k, Analyzer.disassemble s i = .ok j ∧ Analyzer.evaluate s j registers = .ok (t, k) ∧
      t.isTainted (.byte 0xffffffffffffffff) = true ∧ t.isTainted (.byte 0) = false := by
  intro s i registers
  have hd : X86.decodeWhole i.opcode = some ⟨.push, [.register ⟨.qword, 7⟩], [], 1⟩ := by decide +kernel
  obtain ⟨o, j, t, k, hoperands, hj, hk, hpush, -⟩ := s.stack_moves_slot i registers hd rfl rfl
  obtain ⟨operand, hone, hstored⟩ := hpush rfl
  obtain rfl : describe _ i = j := Except.ok.inj ((s.disassemble_of_decodes hd).symm.trans hj)
  have hstep : (s.step _ (describe _ i) _).2 = k :=
    congrArg Prod.snd (Except.ok.inj ((s.evaluate_describe hd _).symm.trans hk))
  have htainted : k.operands.map (·.tainted) = [true] := by
    rw [← hstep]
    decide +kernel
  have hoperand : operand.tainted = true := by simpa [hone] using htainted
  refine ⟨_, t, k, hj, hk, ?_, ?_⟩
  · rw [hstored.written _ (by decide +kernel), hoperand]
    rfl
  · rw [(hstored.kept _ (by decide +kernel)).tainted]
    decide +kernel

/-- A push of two tainted bytes taints eight, and a pop of two clean bytes is tainted by what stands behind them. -/
theorem exists_neighbours_moved :
    let ax : X86.Reg := ⟨.word, 0⟩
    let bx : X86.Reg := ⟨.word, 3⟩
    let d : X86.Instruction := ⟨.push, [.register ax], [], 2⟩
    let e : X86.Instruction := ⟨.pop, [.register bx], [], 2⟩
    let push : Instruction := { address := 0x1000, thread := 1, opcode := [0x66, 0x50] }
    let pop : Instruction := { address := 0x1000, thread := 1, opcode := [0x66, 0x5b] }
    let registers : RegisterFile := fun r => if r = .rsp then some 0x3008 else none
    let s : Shadow := addSource {} (.register (.general 0)) "rax"
    let u : Shadow := addSource {} (.memory 0x300c 1) "0x300c"
    ax.size = 2 ∧ bx.size = 2 ∧ X86.decodeWhole push.opcode = some d ∧ X86.decodeWhole pop.opcode = some e ∧
      (∃ j t k operand, Analyzer.disassemble s push = .ok j ∧ Analyzer.evaluate s j registers = .ok (t, k) ∧
        k.operands = [operand] ∧ s.isTainted (.byte 0x3000) = false ∧ t.isTainted (.byte 0x3000) = true ∧
        ¬s.Stored (0x3008 - 2) 2 operand.tainted t) ∧
      ∃ j t k, Analyzer.disassemble u pop = .ok j ∧ Analyzer.evaluate u j registers = .ok (t, k) ∧
        k.tainted = true ∧ ¬u.Loaded 0x3008 2 k.tainted := by
  intro ax bx d e push pop registers s u
  have hd : X86.decodeWhole push.opcode = some d := by decide +kernel
  have he : X86.decodeWhole pop.opcode = some e := by decide +kernel
  refine ⟨rfl, rfl, hd, he, ?push, ?pop⟩
  case push =>
    have hstack : registers .rsp = some 0x3008 := rfl
    have hoperands : d.operands = [.register ax] := rfl
    obtain ⟨operand, hone, -⟩ := s.operands_step_of_push push hstack hoperands rfl
    have hclean : s.isTainted (.byte 0x3000) = false := by decide +kernel
    have hmarked : (s.step d (describe d push) registers).1.isTainted (.byte 0x3000) = true := by decide +kernel
    refine ⟨describe d push, (s.step d (describe d push) registers).1, (s.step d (describe d push) registers).2,
      operand, s.disassemble_of_decodes hd, s.evaluate_describe hd registers, hone, hclean, hmarked, fun hstored => ?_⟩
    have hkept := (hstored.kept 0x3000 (by decide +kernel)).tainted
    rw [hmarked, hclean] at hkept
    cases hkept
  case pop =>
    refine ⟨describe e pop, (u.step e (describe e pop) registers).1, (u.step e (describe e pop) registers).2,
      u.disassemble_of_decodes he, u.evaluate_describe he registers, ?_, ?_⟩
    all_goals decide +kernel

end Shadow

end TaintReplay
