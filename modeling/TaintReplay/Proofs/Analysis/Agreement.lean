import TaintReplay.Proofs.Analysis.Flow
import TaintReplay.Proofs.Analysis.Spread
import TaintReplay.Proofs.X86.Operands

/-!
# Taint and expressions agree

Taint and expressions are spread side by side. While both sides are on, every tainted cell holds an expression
(`Covered`), and a cell that holds an expression is tainted (`Grounded`), the program counter apart: a symbolic branch
gives it an expression and no taint. Sources and instructions keep `Covered` (`Seeded.covered`, `Covered.step`). They
keep `Grounded` too (`Seeded.grounded`, `Grounded.step`), unless an instruction reads that expression of the program
counter. Only a `lea` can (`addresses_of_counter`), and one that does is symbolic but not tainted (`Leaks.reads`).
-/

namespace TaintReplay

namespace Shadow

variable {s t : Shadow}

/-- Both sides of the analysis are on. -/
structure BothOn (s : Shadow) : Prop where
  taint : s.taintOn = true
  symbols : s.symbolicOn = true

theorem BothOn.addSource (h : s.BothOn) (l : Location) (origin : String) : (s.addSource l origin).BothOn :=
  ⟨by rw [taintOn_addSource, h.taint], by rw [symbolicOn_addSource, h.symbols]⟩

theorem BothOn.step (h : s.BothOn) (d : X86.Instruction) (i : Instruction) (registers : RegisterFile) :
    (s.step d i registers).1.BothOn := by
  rw [step_fst]
  exact ⟨h.taint, h.symbols⟩

theorem Seeded.bothOn (hst : s.Seeded t) (h : s.BothOn) : t.BothOn := by
  induction hst with
  | refl => exact h
  | source _ l origin ih => exact ih.addSource l origin

/-! ## From taint to expressions -/

/-- Every tainted cell holds an expression. -/
def Covered (s : Shadow) : Prop := ∀ c, s.isTainted c = true → s.isSymbolic c = true

theorem Covered.readsSymbol (h : s.Covered) {f : Flow} (hf : s.readsTaint f = true) : s.readsSymbol f = true := by
  rw [readsTaint_iff] at hf
  obtain ⟨l, hl, c, hc, ht⟩ := hf
  exact s.readsSymbol_iff.2 ⟨l, hl, c, hc, h c ht⟩

theorem Covered.addSource (h : s.Covered) (hon : s.BothOn) (l : Location) (origin : String) :
    (s.addSource l origin).Covered := by
  intro c hc
  rw [isTainted_addSource, hon.taint, Bool.true_and, Bool.or_eq_true] at hc
  rw [isSymbolic_addSource, hon.symbols, Bool.true_and, Bool.or_eq_true]
  exact hc.imp id (h c)

theorem Seeded.covered (hst : s.Seeded t) (hon : s.BothOn) (h : s.Covered) : t.Covered := by
  induction hst with
  | refl => exact h
  | source hst l origin ih => exact ih.addSource (hst.bothOn hon) l origin

/-- A cell that an instruction taints gets an expression, and one that keeps its taint keeps its expression. -/
theorem Covered.step (h : s.Covered) (hon : s.BothOn) (d : X86.Instruction) (i : Instruction)
    (registers : RegisterFile) : (s.step d i registers).1.Covered := by
  intro c hc
  rw [isTainted_step] at hc
  rw [isSymbolic_step, Bool.or_eq_true]
  right
  by_cases hw : c ∈ (Flow.of d i.next registers).written
  · rw [if_pos ⟨hon.taint, hw⟩] at hc
    rw [if_pos ⟨hon.symbols, hw⟩]
    exact h.readsSymbol hc
  · rw [if_neg (fun hn => hw hn.2)] at hc
    rw [if_neg (fun hn => hw hn.2)]
    exact h c hc

/-- A tainted instruction is symbolic. -/
theorem Covered.symbolized (h : s.Covered) (hon : s.BothOn) {d : X86.Instruction} {i : Instruction}
    {registers : RegisterFile} (ht : (s.step d i registers).2.tainted = true) :
    (s.step d i registers).2.symbolized = true := by
  rw [tainted_step, hon.taint, Bool.true_and] at ht
  rw [symbolized_step, hon.symbols, Bool.true_and]
  exact h.readsSymbol ht

/-! ## From expressions to taint -/

/-- The program counter, as a cell of its own. -/
abbrev counterCell : Cell := .register .counter

/-- Every cell but the program counter that holds an expression is tainted. -/
def Grounded (s : Shadow) : Prop := ∀ c, c ≠ counterCell → s.isSymbolic c = true → s.isTainted c = true

theorem Grounded.addSource (h : s.Grounded) (hon : s.BothOn) (l : Location) (origin : String) :
    (s.addSource l origin).Grounded := by
  intro c hne hc
  rw [isSymbolic_addSource, hon.symbols, Bool.true_and, Bool.or_eq_true] at hc
  rw [isTainted_addSource, hon.taint, Bool.true_and, Bool.or_eq_true]
  exact hc.imp id (h c hne)

theorem Seeded.grounded (hst : s.Seeded t) (hon : s.BothOn) (h : s.Grounded) : t.Grounded := by
  induction hst with
  | refl => exact h
  | source hst l origin ih => exact ih.addSource (hst.bothOn hon) l origin

/-- The instruction takes an address from the program counter, which holds an expression but no taint. -/
structure Leaks (s : Shadow) (d : X86.Instruction) : Prop where
  opcode : d.opcode = .lea
  address : .register .counter ∈ addressRegisters d
  symbolic : s.isSymbolic counterCell = true
  clean : s.isTainted counterCell = false

theorem exists_register_of_mem_addressRegisters {d : X86.Instruction} {l : Location} (hl : l ∈ addressRegisters d) :
    ∃ r, l = .register r := by
  obtain ⟨o, _, ho⟩ := List.mem_flatMap.1 hl
  cases o with
  | memory size segment a =>
    obtain ⟨r, _, rfl⟩ := List.mem_map.1 ho
    exact ⟨_, rfl⟩
  | _ => cases ho

/-- A `lea` reads the registers of its address. -/
theorem sources_of_lea {d : X86.Instruction} (hl : d.opcode = .lea) (next : UInt64) (registers : RegisterFile) :
    (Flow.of d next registers).sources = addressRegisters d := by
  unfold Flow.of
  rw [hl]
  rfl

section Decoded

variable {bytes : List UInt8} {d : X86.Instruction} (hd : X86.decode bytes = some d)
include hd

/-- No operand lives in the program counter. -/
theorem counter_not_mem_resolve {next : UInt64} {registers : Option RegisterFile} {l : Location}
    (hl : l ∈ (resolve d next registers).map (·.2)) : counterCell ∉ l.cells := by
  intro hc
  rcases Location.mem_cells_iff.1 hc with ⟨r, rfl, hr⟩ | ⟨_, _, _, _, _, hbyte⟩
  · obtain ⟨operand, hmem, rfl⟩ := (located_of_mem_resolve hl).of_register
    exact X86.full_ne_counter hd hmem (Cell.register.inj hr).symm
  · cases hbyte

/-- Only a `lea` reads the program counter, through its address. -/
theorem addresses_of_counter {next : UInt64} {registers : RegisterFile} {l : Location}
    (hl : l ∈ (Flow.of d next registers).sources) (hc : counterCell ∈ l.cells) :
    d.opcode = .lea ∧ l ∈ addressRegisters d := by
  have hresolved : l ∉ (resolve d next (some registers)).map (·.2) := fun h => counter_not_mem_resolve hd h hc
  unfold Flow.of Effect.flow at hl
  dsimp only at hl
  generalize (resolve d next (some registers)).map (·.2) = locations at hl hresolved
  cases he : Effect.of d.opcode locations with
  | address =>
    have hlea := opcode_of_effect d.opcode locations
    rw [he] at hl hlea
    exact ⟨hlea, hl⟩
  | assign =>
    rw [he] at hl
    exact absurd (List.mem_of_mem_drop hl) hresolved
  | update | compare =>
    rw [he] at hl
    exact absurd hl hresolved
  | push =>
    rw [he] at hl
    exact absurd (List.mem_of_mem_take hl) hresolved
  | pop =>
    rw [he] at hl
    rw [List.mem_singleton.1 hl] at hc
    simp [Location.cells] at hc
  | branch b =>
    rw [he] at hl
    cases hb : b.usesCounter <;> simp [hb, flagsLocation] at hl
    · simp [hl, Location.cells] at hc
    · rcases hl with rfl | rfl <;> simp [Location.cells] at hc
  | clear | untracked =>
    rw [he] at hl
    cases hl

/-- A `lea` whose address uses the program counter reads nothing else. -/
theorem addressRegisters_of_counter (hl : d.opcode = .lea) (hc : .register .counter ∈ addressRegisters d) :
    addressRegisters d = [.register .counter] := by
  obtain ⟨r, size, segment, a, ho⟩ := X86.operands_of_lea hd hl
  have haddress : addressRegisters d = a.registers.map fun r => .register r.full := by
    simp [addressRegisters, ho]
  rw [haddress] at hc ⊢
  obtain ⟨r', hr', hfull⟩ := List.mem_map.1 hc
  have hcounter : r'.full = .counter := Location.register.inj hfull
  have hmemory : .memory size segment a ∈ d.operands := by simp [ho]
  rw [X86.registers_of_counter hd hmemory hr' hcounter]
  simp [hcounter]

/-- What reads an expression reads taint, unless it is the expression of a clean program counter. -/
theorem Grounded.readsTaint (h : s.Grounded) (hleak : ¬s.Leaks d) {next : UInt64} {registers : RegisterFile}
    (hf : s.readsSymbol (Flow.of d next registers) = true) : s.readsTaint (Flow.of d next registers) = true := by
  obtain ⟨l, hl, c, hc, hs⟩ := s.readsSymbol_iff.1 hf
  refine s.readsTaint_iff.2 ⟨l, hl, c, hc, ?_⟩
  by_cases hcounter : c = counterCell
  · subst hcounter
    obtain ⟨hlea, haddress⟩ := addresses_of_counter hd hl hc
    by_contra hclean
    refine hleak ⟨hlea, ?_, hs, by simpa using hclean⟩
    obtain ⟨r, rfl⟩ := exists_register_of_mem_addressRegisters haddress
    have hr : Register.counter = r := by simpa [Location.cells] using hc
    rwa [hr]
  · exact h c hcounter hs

/-- The instruction that leaks the expression of the program counter reads an expression and no taint. -/
theorem Leaks.reads (h : s.Leaks d) (next : UInt64) (registers : RegisterFile) :
    s.readsSymbol (Flow.of d next registers) = true ∧ s.readsTaint (Flow.of d next registers) = false := by
  have hsources : (Flow.of d next registers).sources = [.register .counter] :=
    (sources_of_lea h.opcode next registers).trans (addressRegisters_of_counter hd h.opcode h.address)
  constructor
  · rw [readsSymbol_iff, hsources]
    exact ⟨_, List.mem_singleton_self _, _, List.mem_singleton_self _, h.symbolic⟩
  · rw [Bool.eq_false_iff, Ne, readsTaint_iff, hsources]
    rintro ⟨l, hl, c, hc, ht⟩
    rw [List.mem_singleton.1 hl] at hc
    rw [List.mem_singleton.1 hc] at ht
    exact absurd ht (by simp [h.clean])

end Decoded

/-- Unless the expression of the program counter leaks, a cell that gets an expression becomes tainted, and one that
keeps its expression keeps its taint. -/
theorem Grounded.step (h : s.Grounded) (hon : s.BothOn) {d : X86.Instruction} {i : Instruction}
    (hd : X86.decode i.opcode = some d) (hleak : ¬s.Leaks d) (registers : RegisterFile) :
    (s.step d i registers).1.Grounded := by
  intro c hne hc
  rw [isSymbolic_step, decide_eq_false hne, Bool.and_false, Bool.false_or] at hc
  rw [isTainted_step]
  by_cases hw : c ∈ (Flow.of d i.next registers).written
  · rw [if_pos ⟨hon.symbols, hw⟩] at hc
    rw [if_pos ⟨hon.taint, hw⟩]
    exact h.readsTaint hd hleak hc
  · rw [if_neg (fun hn => hw hn.2)] at hc
    rw [if_neg (fun hn => hw hn.2)]
    exact h c hne hc

/-- Unless the expression of the program counter leaks, a symbolic instruction is tainted. -/
theorem Grounded.tainted (h : s.Grounded) (hon : s.BothOn) {d : X86.Instruction} {i : Instruction}
    (hd : X86.decode i.opcode = some d) (hleak : ¬s.Leaks d) {registers : RegisterFile}
    (hs : (s.step d i registers).2.symbolized = true) : (s.step d i registers).2.tainted = true := by
  rw [symbolized_step, hon.symbols, Bool.true_and] at hs
  rw [tainted_step, hon.taint, Bool.true_and]
  exact h.readsTaint hd hleak hs

end Shadow

end TaintReplay
