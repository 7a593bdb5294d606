import TaintReplay.Analysis.Shadow

/-!
# What one instruction does to the shadow state

`Shadow.isTainted` and `Shadow.isSymbolic` view the shadow state cell by cell. One instruction taints the cells it
writes iff it reads taint and keeps every other one (`isTainted_step`), and does the same with expressions, except that
a symbolic branch also marks the program counter (`isSymbolic_step`). Expressions are only added (`expressions_step`),
and the one that a symbolic branch adds for the program counter says where it may go (`counter_step`). A record whose
bytes decode is disassembled and evaluated (`disassemble_of_decodes`, `evaluate_describe`). A source marks its own cells
(`isTainted_addSource`, `isSymbolic_addSource`).
-/

namespace TaintReplay

/-! ## Marks on locations -/

namespace Marks

variable {ν : Type} (m : Marks ν)

theorem touches_iff {l : Location} : m.touches l = true ↔ ∃ c ∈ l.cells, (m.get? c).isSome = true := by
  simp [touches]

/-- Marking locations one after the other changes their cells and no others. -/
theorem get?_foldl_put (mark : Option ν) (c : Cell) : ∀ (ls : List Location) (m : Marks ν),
    (ls.foldl (fun m l => m.put l mark) m).get? c = if c ∈ ls.flatMap Location.cells then mark else m.get? c
  | [], m => by simp
  | l :: ls, m => by
    rw [List.foldl_cons, get?_foldl_put mark c ls, get?_put]
    by_cases hl : c ∈ l.cells <;> by_cases hls : c ∈ ls.flatMap Location.cells <;> simp_all

end Marks

/-- The cells that a flow writes. -/
def Flow.written (f : Flow) : List Cell := f.destinations.flatMap Location.cells

namespace Shadow

variable (s : Shadow)

/-- Does the cell carry taint? -/
def isTainted (c : Cell) : Bool := (s.taint.get? c).isSome

/-- Does the cell hold an expression? -/
def isSymbolic (c : Cell) : Bool := (s.symbols.get? c).isSome

/-- Is a source of the flow tainted? -/
def readsTaint (f : Flow) : Bool := f.sources.any s.taint.touches

/-- Does a source of the flow hold an expression? -/
def readsSymbol (f : Flow) : Bool := f.sources.any s.symbols.touches

theorem readsTaint_iff {f : Flow} : s.readsTaint f = true ↔ ∃ l ∈ f.sources, ∃ c ∈ l.cells, s.isTainted c = true := by
  simp only [readsTaint, List.any_eq_true, Marks.touches_iff, isTainted]

theorem readsSymbol_iff {f : Flow} :
    s.readsSymbol f = true ↔ ∃ l ∈ f.sources, ∃ c ∈ l.cells, s.isSymbolic c = true := by
  simp only [readsSymbol, List.any_eq_true, Marks.touches_iff, isSymbolic]

@[simp] theorem isSome_taintMark (b : Bool) : (taintMark b).isSome = b := by cases b <;> rfl

/-! ## Taint -/

/-- Spreading taint changes the taint marks alone. -/
theorem spreadTaint_fst (f : Flow) : (s.spreadTaint f).1 = { s with taint := (s.spreadTaint f).1.taint } := by
  unfold spreadTaint
  split <;> rfl

theorem spreadTaint_snd (f : Flow) : (s.spreadTaint f).2 = (s.taintOn && s.readsTaint f) := by
  unfold spreadTaint
  split <;> simp_all [readsTaint]

theorem isTainted_spreadTaint (f : Flow) (c : Cell) : (s.spreadTaint f).1.isTainted c =
    if s.taintOn = true ∧ c ∈ f.written then s.readsTaint f else s.isTainted c := by
  unfold spreadTaint
  by_cases hon : s.taintOn = true
  · simp only [hon, if_true, isTainted, Marks.get?_foldl_put, true_and]
    by_cases hc : c ∈ f.destinations.flatMap Location.cells <;> simp [hc, Flow.written, readsTaint]
  · simp [hon]

/-! ## Expressions -/

theorem isSome_symbolAt (l : Location) : (s.symbolAt l).isSome = s.symbols.touches l := by
  rw [Bool.eq_iff_iff, Marks.touches_iff, symbolAt, Marks.marksAt, List.isSome_max?_iff, Ne, List.filterMap_eq_nil_iff]
  simp [Option.isSome_iff_ne_none]

theorem filterMap_symbolAt_eq_nil_iff (f : Flow) : f.sources.filterMap s.symbolAt = [] ↔ s.readsSymbol f = false := by
  rw [List.filterMap_eq_nil_iff, readsSymbol, List.any_eq_false]
  simp [← isSome_symbolAt]

/-- The later state has every expression of the earlier one, at the same place. -/
def Extends (s t : Shadow) : Prop := ∃ more, t.expressions = s.expressions ++ more

theorem Extends.refl : s.Extends s := ⟨#[], by simp⟩

variable {s} in
theorem Extends.trans {t u : Shadow} (h₁ : s.Extends t) (h₂ : t.Extends u) : s.Extends u := by
  obtain ⟨a, ha⟩ := h₁
  obtain ⟨b, hb⟩ := h₂
  exact ⟨a ++ b, by rw [hb, ha, Array.append_assoc]⟩

variable {s} in
theorem Extends.size_le {t : Shadow} (h : s.Extends t) : s.expressions.size ≤ t.expressions.size := by
  obtain ⟨more, h⟩ := h
  simp [h]

variable {s} in
/-- An expression stays what it is. -/
theorem Extends.getElem? {t : Shadow} (h : s.Extends t) {n : Nat} (hn : n < s.expressions.size) :
    t.expressions[n]? = s.expressions[n]? := by
  obtain ⟨more, h⟩ := h
  rw [h, Array.getElem?_append_left hn]

theorem extends_addExpression (text : String) : s.Extends (s.addExpression text).1 :=
  ⟨#[numbered s.expressions.size text], by simp [addExpression]⟩

/-- Giving destinations expressions changes expressions and their marks alone. -/
theorem assign_fst (value : String) : ∀ (ls : List Location) (s : Shadow), (s.assign value ls).1 =
    { s with
      symbols := (s.assign value ls).1.symbols
      expressions := (s.assign value ls).1.expressions }
  | [], _ => rfl
  | l :: ls, s => by
    unfold assign
    dsimp only
    rw [assign_fst value ls]
    rfl

theorem extends_assign (value : String) : ∀ (ls : List Location) (s : Shadow), s.Extends (s.assign value ls).1
  | [], s => .refl s
  | l :: ls, s => by
    unfold assign
    exact (s.extends_addExpression _).trans (extends_assign value ls _)

theorem isSymbolic_assign (value : String) (c : Cell) : ∀ (ls : List Location) (s : Shadow),
    (s.assign value ls).1.isSymbolic c = (decide (c ∈ ls.flatMap Location.cells) || s.isSymbolic c)
  | [], s => by simp [assign]
  | l :: ls, s => by
    unfold assign
    dsimp only
    rw [isSymbolic_assign value c ls]
    by_cases hl : c ∈ l.cells
    · simp [isSymbolic, Marks.get?_put, hl]
    · simp [isSymbolic, Marks.get?_put, hl, addExpression]

/-- Spreading expressions changes expressions and their marks alone. -/
theorem spreadSymbols_fst (f : Flow) (text : String) : (s.spreadSymbols f text).1 =
    { s with
      symbols := (s.spreadSymbols f text).1.symbols
      expressions := (s.spreadSymbols f text).1.expressions } := by
  unfold spreadSymbols
  split
  · split
    · rfl
    · exact assign_fst _ _ s
  · rfl

theorem isSome_spreadSymbols_snd (f : Flow) (text : String) :
    (s.spreadSymbols f text).2.isSome = (s.symbolicOn && s.readsSymbol f) := by
  unfold spreadSymbols
  split
  · split
    · rename_i hnil
      simp [(s.filterMap_symbolAt_eq_nil_iff f).1 hnil]
    · rename_i hne
      have hreads : s.readsSymbol f = true := by
        simpa using mt (s.filterMap_symbolAt_eq_nil_iff f).2 hne
      simp [*]
  · simp [*]

theorem extends_spreadSymbols (f : Flow) (text : String) : s.Extends (s.spreadSymbols f text).1 := by
  unfold spreadSymbols
  split
  · split
    · exact .refl s
    · exact extends_assign _ _ s
  · exact .refl s

theorem isSymbolic_spreadSymbols (f : Flow) (text : String) (c : Cell) : (s.spreadSymbols f text).1.isSymbolic c =
    if s.symbolicOn = true ∧ c ∈ f.written then s.readsSymbol f else s.isSymbolic c := by
  unfold spreadSymbols
  by_cases hon : s.symbolicOn = true
  · simp only [hon, if_true, true_and]
    split
    · rename_i hnil
      simp only [isSymbolic, Marks.get?_foldl_put, Flow.written, (s.filterMap_symbolAt_eq_nil_iff f).1 hnil]
      split <;> simp
    · rename_i hne
      have hreads : s.readsSymbol f = true := by
        simpa using mt (s.filterMap_symbolAt_eq_nil_iff f).2 hne
      rw [isSymbolic_assign, hreads, Flow.written]
      by_cases hc : c ∈ f.destinations.flatMap Location.cells <;> simp [hc]
  · simp [hon]

/-! ## Decisions -/

section Decision

variable (d : X86.Instruction) (i : Instruction) (registers : RegisterFile)

/-- Recording a decision changes expressions and their marks alone. -/
theorem recordDecision_fst : (s.recordDecision d i registers).1 =
    { s with
      symbols := (s.recordDecision d i registers).1.symbols
      expressions := (s.recordDecision d i registers).1.expressions } := by
  unfold recordDecision
  split
  · dsimp only
    split <;> rfl
  · rfl

/-- Recording a decision fills in whether the branch is taken, and the new expression. -/
theorem recordDecision_snd : (s.recordDecision d i registers).2 =
    { i with
      taken := if i.branch then (d.opcode.branch?.map (X86.Branch.isTaken · registers)).getD false else i.taken
      expressions := (s.recordDecision d i registers).2.expressions } := by
  unfold recordDecision
  split
  · dsimp only
    split <;> rfl
  · rfl

theorem extends_recordDecision : s.Extends (s.recordDecision d i registers).1 := by
  unfold recordDecision
  split
  · dsimp only
    split
    · exact s.extends_addExpression _
    · exact .refl s
  · exact .refl s

theorem isSymbolic_recordDecision (c : Cell) : (s.recordDecision d i registers).1.isSymbolic c =
    ((i.branch && i.symbolized && decide (c = .register .counter)) || s.isSymbolic c) := by
  unfold recordDecision
  by_cases hb : i.branch = true
  · by_cases hs : i.symbolized = true
    · by_cases hc : c = .register .counter
      · simp [hb, hs, hc, isSymbolic, Marks.get?_put, Location.cells]
      · simp [hb, hs, hc, isSymbolic, Marks.get?_put, Location.cells, addExpression]
    · simp [hb, hs]
  · simp [hb]

/-- The text of the expression that a symbolic branch gives the program counter. -/
def decisionText (text : String) (target next : UInt64) : String :=
  "rip := ite(" ++ text ++ ", " ++ Text.address target.toNat ++ ", " ++ Text.address next.toNat ++ ")"

/-- A symbolic branch gives the program counter a new expression. -/
theorem counter_recordDecision (hb : i.branch = true) (hs : i.symbolized = true) :
    let t := (s.recordDecision d i registers).1
    t.symbols.get? (.register .counter) = some s.expressions.size ∧
      t.expressions = s.expressions.push
        (numbered s.expressions.size (decisionText i.text (i.target.getD i.next) i.next)) := by
  unfold recordDecision
  simp only [hb, hs, if_true]
  refine ⟨?_, rfl⟩
  simp [Marks.get?_put, Location.cells, addExpression]

end Decision

/-! ## Whole instructions -/

section Step

variable (d : X86.Instruction) (i : Instruction) (registers : RegisterFile)

/-- The shadow state before the decision of the instruction is recorded, and the new expressions. -/
def beforeDecision : Shadow × Option (List Nat) :=
  (s.spreadTaint (Flow.of d i.next registers)).1.spreadSymbols (Flow.of d i.next registers) i.text

/-- The record before the decision of the instruction is recorded. -/
def recordBeforeDecision : Instruction :=
  { i with
    operands := s.operandsOf d i.next registers
    tainted := (s.spreadTaint (Flow.of d i.next registers)).2
    symbolized := (s.beforeDecision d i registers).2.isSome
    expressions := (s.beforeDecision d i registers).2.getD [] }

theorem step_eq : s.step d i registers =
    (s.beforeDecision d i registers).1.recordDecision d (s.recordBeforeDecision d i registers) registers := rfl

theorem beforeDecision_fst : (s.beforeDecision d i registers).1 =
    { s with
      taint := (s.spreadTaint (Flow.of d i.next registers)).1.taint
      symbols := (s.beforeDecision d i registers).1.symbols
      expressions := (s.beforeDecision d i registers).1.expressions } := by
  unfold beforeDecision
  rw [spreadSymbols_fst, spreadTaint_fst]

/-- An instruction leaves the two switches and the count of variables alone. -/
theorem step_fst : (s.step d i registers).1 =
    { s with
      taint := (s.spreadTaint (Flow.of d i.next registers)).1.taint
      symbols := (s.step d i registers).1.symbols
      expressions := (s.step d i registers).1.expressions } := by
  rw [step_eq, recordDecision_fst, beforeDecision_fst]

/-- The record of an instruction keeps its place, its bytes and its text. -/
theorem step_snd : (s.step d i registers).2 =
    { i with
      operands := s.operandsOf d i.next registers
      tainted := s.taintOn && s.readsTaint (Flow.of d i.next registers)
      symbolized := s.symbolicOn && s.readsSymbol (Flow.of d i.next registers)
      taken := if i.branch then (d.opcode.branch?.map (X86.Branch.isTaken · registers)).getD false else i.taken
      expressions := (s.step d i registers).2.expressions } := by
  rw [step_eq, recordDecision_snd, recordBeforeDecision, spreadTaint_snd, beforeDecision, isSome_spreadSymbols_snd,
    spreadTaint_fst]
  rfl

theorem address_step : (s.step d i registers).2.address = i.address := by rw [step_snd]

theorem next_step : (s.step d i registers).2.next = i.next := by rw [step_snd]

theorem target_step : (s.step d i registers).2.target = i.target := by rw [step_snd]

theorem branch_step : (s.step d i registers).2.branch = i.branch := by rw [step_snd]

/-- An instruction is tainted iff it reads taint. -/
theorem tainted_step :
    (s.step d i registers).2.tainted = (s.taintOn && s.readsTaint (Flow.of d i.next registers)) := by
  rw [step_snd]

/-- An instruction is symbolic iff it reads an expression. -/
theorem symbolized_step :
    (s.step d i registers).2.symbolized = (s.symbolicOn && s.readsSymbol (Flow.of d i.next registers)) := by
  rw [step_snd]

theorem isTainted_step (c : Cell) : (s.step d i registers).1.isTainted c =
    if s.taintOn = true ∧ c ∈ (Flow.of d i.next registers).written then s.readsTaint (Flow.of d i.next registers)
    else s.isTainted c := by
  rw [← isTainted_spreadTaint, step_fst]
  rfl

theorem symbolized_recordBeforeDecision : (s.recordBeforeDecision d i registers).symbolized =
    (s.symbolicOn && s.readsSymbol (Flow.of d i.next registers)) := by
  rw [recordBeforeDecision, beforeDecision, isSome_spreadSymbols_snd, spreadTaint_fst]
  rfl

theorem isSymbolic_step (c : Cell) : (s.step d i registers).1.isSymbolic c =
    ((i.branch && (s.symbolicOn && s.readsSymbol (Flow.of d i.next registers)) && decide (c = .register .counter)) ||
      if s.symbolicOn = true ∧ c ∈ (Flow.of d i.next registers).written then
        s.readsSymbol (Flow.of d i.next registers)
      else s.isSymbolic c) := by
  rw [step_eq, isSymbolic_recordDecision, symbolized_recordBeforeDecision, beforeDecision, isSymbolic_spreadSymbols,
    spreadTaint_fst]
  rfl

theorem extends_beforeDecision : s.Extends (s.beforeDecision d i registers).1 := by
  have htaint : s.Extends (s.spreadTaint (Flow.of d i.next registers)).1 := ⟨#[], by rw [spreadTaint_fst]; simp⟩
  exact htaint.trans (extends_spreadSymbols ..)

theorem expressions_step : s.Extends (s.step d i registers).1 := by
  rw [step_eq]
  exact (s.extends_beforeDecision d i registers).trans (extends_recordDecision ..)

/-- A symbolic branch gives the program counter an expression that is newer than all before it. -/
theorem counter_step (hb : i.branch = true) (hs : (s.step d i registers).2.symbolized = true) :
    ∃ n, s.expressions.size ≤ n ∧
      (s.step d i registers).1.symbols.get? (.register .counter) = some n ∧
      (s.step d i registers).1.expressions[n]? =
        some (numbered n (decisionText i.text (i.target.getD i.next) i.next)) := by
  have hsymbolized : (s.recordBeforeDecision d i registers).symbolized = true := by
    rw [symbolized_recordBeforeDecision, ← symbolized_step, hs]
  obtain ⟨hget, hexpressions⟩ := (s.beforeDecision d i registers).1.counter_recordDecision d
    (s.recordBeforeDecision d i registers) registers hb hsymbolized
  refine ⟨_, (s.extends_beforeDecision d i registers).size_le, hget, ?_⟩
  rw [step_eq, hexpressions, Array.getElem?_push_size]
  rfl

end Step

/-! ## Records -/

section Record

variable {i : Instruction} {d : X86.Instruction}

/-- A record whose bytes are one instruction is described by it. -/
theorem disassemble_of_decodes (hd : X86.decodeWhole i.opcode = some d) :
    Analyzer.disassemble s i = .ok (describe d i) := by
  show (decoded i).map _ = _
  rw [decoded, hd]
  rfl

/-- A record whose bytes are no instruction is refused. -/
theorem disassemble_of_not_decodes (hd : X86.decodeWhole i.opcode = none) :
    Analyzer.disassemble s i = .error (.invalidOpcode i.opcode) := by
  show (decoded i).map _ = _
  rw [decoded, hd]
  rfl

/-- What has been disassembled is evaluated. -/
theorem evaluate_describe (hd : X86.decodeWhole i.opcode = some d) (registers : RegisterFile) :
    Analyzer.evaluate s (describe d i) registers = .ok (s.step d (describe d i) registers) := by
  show (decoded (describe d i)).map _ = _
  rw [decoded, show X86.decodeWhole (describe d i).opcode = some d from hd]
  rfl

end Record

/-! ## Sources -/

section Source

variable (l : Location) (origin : String)

theorem isTainted_addSource (c : Cell) :
    (s.addSource l origin).isTainted c = (s.taintOn && decide (c ∈ l.cells) || s.isTainted c) := by
  unfold addSource
  by_cases hc : c ∈ l.cells <;> by_cases ht : s.taintOn = true <;> by_cases hs : s.symbolicOn = true <;>
    simp [isTainted, addVariable, addExpression, Marks.get?_put, hc, ht, hs]

theorem isSymbolic_addSource (c : Cell) :
    (s.addSource l origin).isSymbolic c = (s.symbolicOn && decide (c ∈ l.cells) || s.isSymbolic c) := by
  unfold addSource
  by_cases hc : c ∈ l.cells <;> by_cases ht : s.taintOn = true <;> by_cases hs : s.symbolicOn = true <;>
    simp [isSymbolic, addVariable, addExpression, Marks.get?_put, hc, ht, hs]

theorem taintOn_addSource : (s.addSource l origin).taintOn = s.taintOn := by
  unfold addSource
  dsimp only
  split <;> split <;> rfl

theorem symbolicOn_addSource : (s.addSource l origin).symbolicOn = s.symbolicOn := by
  unfold addSource
  dsimp only
  split <;> split <;> rfl

theorem extends_addSource : s.Extends (s.addSource l origin) := by
  unfold addSource
  dsimp only
  split <;> split
  all_goals first
    | exact extends_addExpression _ _
    | exact .refl _

end Source

/-- Marking sources, one after the other. -/
inductive Seeded : Shadow → Shadow → Prop
  | refl (s : Shadow) : Seeded s s
  | source {s t : Shadow} (h : Seeded s t) (l : Location) (origin : String) : Seeded s (t.addSource l origin)

theorem seeded_of_taintRegister {t : Shadow} {name : String} (h : s.taintRegister name = .ok t) : s.Seeded t := by
  unfold taintRegister at h
  split at h
  · exact Except.ok.inj h ▸ .source (.refl s) _ _
  · cases h

theorem seeded_taintMemory (start : UInt64) (length : Nat) : s.Seeded (s.taintMemory start length) := by
  unfold taintMemory
  induction length with
  | zero => exact .refl s
  | succ n ih =>
    rw [List.range_succ, List.foldl_append]
    exact .source ih _ _

theorem Seeded.trans {s t u : Shadow} (h₁ : s.Seeded t) (h₂ : t.Seeded u) : s.Seeded u := by
  induction h₂ with
  | refl => exact h₁
  | source _ l origin ih => exact .source ih l origin

theorem Seeded.extends {s t : Shadow} (h : s.Seeded t) : s.Extends t := by
  induction h with
  | refl => exact .refl _
  | source _ l origin ih => exact ih.trans (extends_addSource _ l origin)

end Shadow

end TaintReplay
