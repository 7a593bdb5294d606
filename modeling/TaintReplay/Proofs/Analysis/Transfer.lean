import TaintReplay.Proofs.Analysis.Agreement
import TaintReplay.Proofs.Analysis.Table

/-!
# What one instruction moves

The flow of an instruction names the locations that it reads and those that it writes. A cell that is written gets the
taint of what is read, and all others keep theirs (`MovesTaint`). Likewise with expressions, but that each location that
is written gets one of its own, and that a symbolic branch gives one to the program counter (`MovesSymbols`). No two of
these share a cell (`apart_renewed`), so none overwrites another (`get?_foldl_enter`). `evaluate_moves` joins the two
and says what memory is in the flow at all.
-/

namespace TaintReplay

/-- The locations that get expressions of their own: those that a symbolic instruction writes, and the program counter
if it is a branch. -/
def Flow.renewed (f : Flow) (branch symbolized : Bool) : List Location :=
  if symbolized then f.destinations ++ (if branch then [.register .counter] else []) else []

/-- An instruction renews no cell twice. -/
theorem apart_renewed {d : X86.Instruction} {branch : Bool} (h : branch = d.opcode.branch?.isSome) (next : UInt64)
    (registers : RegisterFile) (symbolized : Bool) :
    ((Flow.of d next registers).renewed branch symbolized).Pairwise Location.Apart := by
  unfold Flow.renewed
  split
  · cases hb : branch with
    | false =>
      rw [if_neg Bool.false_ne_true, List.append_nil]
      exact apart_destinations d next registers
    | true =>
      -- a branch writes nothing else, so the program counter is alone
      rw [destinations_of_branch (h ▸ hb)]
      exact List.pairwise_singleton _ _
  · exact .nil

namespace Shadow

variable (s : Shadow)

/-! ## Entering expressions -/

/-- A cell outside the places of the expressions keeps what it holds. -/
theorem get?_foldl_enter_of_not_mem {es : List Expression} {c : Cell}
    (h : ∀ l ∈ es.map Expression.place, c ∉ l.cells) : (es.foldl enter s).symbols.get? c = s.symbols.get? c := by
  induction es generalizing s with
  | nil => rfl
  | cons e es ih =>
    rw [List.map_cons, List.forall_mem_cons] at h
    rw [List.foldl_cons, ih _ h.2, enter, Marks.get?_put, if_neg h.1]

/-- An expression is held by its whole place, if all the places are apart. -/
theorem get?_foldl_enter {es : List Expression} (hapart : (es.map Expression.place).Pairwise Location.Apart) {n : Nat}
    {l : Location} (hl : (es.map Expression.place)[n]? = some l) {c : Cell} (hc : c ∈ l.cells) :
    (es.foldl enter s).symbols.get? c = some (s.expressions.size + n) := by
  induction es generalizing s n with
  | nil => simp at hl
  | cons e es ih =>
    rw [List.map_cons] at hapart hl
    cases n with
    | zero =>
      obtain rfl : e.place = l := Option.some.inj hl
      -- the later expressions have other places, so they leave the cell alone
      have hlater : ∀ m ∈ es.map Expression.place, c ∉ m.cells :=
        fun m hm => List.rel_of_pairwise_cons hapart hm c hc
      rw [List.foldl_cons, get?_foldl_enter_of_not_mem _ hlater, enter, Marks.get?_put, if_pos hc, Nat.add_zero]
    | succ n =>
      have hsize : (s.enter e).expressions.size = s.expressions.size + 1 := Array.size_push _
      rw [List.foldl_cons, ih _ hapart.of_cons hl, hsize, Nat.add_assoc, Nat.add_comm 1 n]

/-- The expressions that an instruction adds are for what it renews. -/
theorem map_place_created (d : X86.Instruction) (i : Instruction) (registers : RegisterFile) :
    (s.created d i registers).map Expression.place =
      (Flow.of d i.next registers).renewed i.branch (s.step d i registers).2.symbolized := by
  have hreads := s.filterMap_symbolAt_eq_nil_iff (Flow.of d i.next registers)
  unfold created assigned decided Flow.renewed
  rw [symbolized_recordBeforeDecision, symbolized_step]
  cases hs : s.symbolicOn && s.readsSymbol (Flow.of d i.next registers) with
  | false =>
    have hnone : ¬(s.symbolicOn = true ∧ (Flow.of d i.next registers).sources.filterMap s.symbolAt ≠ []) := by
      rw [Ne, hreads]
      simpa using hs
    rw [if_neg hnone, Bool.and_false, if_neg Bool.false_ne_true, if_neg Bool.false_ne_true]
    rfl
  | true =>
    have hsome : s.symbolicOn = true ∧ (Flow.of d i.next registers).sources.filterMap s.symbolAt ≠ [] := by
      rw [Ne, hreads]
      simpa using hs
    rw [if_pos hsome, if_pos rfl, List.map_append, List.map_map, Bool.and_true]
    congr 1
    · exact List.map_id _
    · rw [apply_ite (List.map Expression.place)]
      rfl

/-! ## Transfer -/

/-- From one shadow state to the next, the taint of what the flow reads moves to what it writes, and into the record. -/
structure MovesTaint (s : Shadow) (f : Flow) (k : Instruction) (t : Shadow) : Prop where
  tainted : k.tainted = true ↔ s.taintOn = true ∧ ∃ l ∈ f.sources, ∃ c ∈ l.cells, s.isTainted c = true
  written : s.taintOn = true → ∀ l ∈ f.destinations, ∀ c ∈ l.cells, t.isTainted c = k.tainted
  kept : ∀ c, (∀ l ∈ f.destinations, c ∉ l.cells) → t.isTainted c = s.isTainted c
  off : s.taintOn = false → t.taint = s.taint

/-- From one shadow state to the next, what the flow writes gets new expressions if something that it reads holds one,
and loses those that it holds otherwise. -/
structure MovesSymbols (s : Shadow) (f : Flow) (branch : Bool) (k : Instruction) (t : Shadow) : Prop where
  symbolized : k.symbolized = true ↔ s.symbolicOn = true ∧ ∃ l ∈ f.sources, ∃ c ∈ l.cells, s.isSymbolic c = true
  given : ∀ n l, (f.renewed branch k.symbolized)[n]? = some l → ∀ c ∈ l.cells,
    t.symbols.get? c = some (s.expressions.size + n)
  lost : s.symbolicOn = true → k.symbolized = false → ∀ l ∈ f.destinations, ∀ c ∈ l.cells, t.symbols.get? c = none
  kept : ∀ c, (∀ l ∈ f.destinations ++ f.renewed branch k.symbolized, c ∉ l.cells) →
    t.symbols.get? c = s.symbols.get? c
  /-- There is one new expression for each of these, and no other. -/
  expressions : ∃ more, t.expressions = s.expressions ++ more ∧ more.size = (f.renewed branch k.symbolized).length ∧
    k.expressions = List.range' s.expressions.size more.size
  off : s.symbolicOn = false → t.symbols = s.symbols ∧ t.expressions = s.expressions

section Step

variable {d : X86.Instruction} {i : Instruction} (registers : RegisterFile)

theorem movesTaint_step (d : X86.Instruction) (i : Instruction) :
    s.MovesTaint (Flow.of d i.next registers) (s.step d i registers).2 (s.step d i registers).1 where
  tainted := by rw [tainted_step, Bool.and_eq_true, readsTaint_iff]
  written hon l hl c hc := by
    rw [isTainted_step, if_pos ⟨hon, List.mem_flatMap.2 ⟨l, hl, hc⟩⟩, tainted_step, hon, Bool.true_and]
  kept c hc := by
    have hwritten : c ∉ (Flow.of d i.next registers).written := fun h => by
      obtain ⟨l, hl, hcl⟩ := List.mem_flatMap.1 h
      exact hc l hl hcl
    rw [isTainted_step, if_neg fun h => hwritten h.2]
  off hoff := by
    rw [step_fst, spreadTaint, if_neg (by rw [hoff]; exact Bool.false_ne_true)]

/-- A cell that is not renewed has what is left to it before the instruction adds its expressions. -/
theorem get?_step_of_not_renewed {c : Cell}
    (hc : ∀ l ∈ (Flow.of d i.next registers).renewed i.branch (s.step d i registers).2.symbolized, c ∉ l.cells) :
    (s.step d i registers).1.symbols.get? c = (s.released (Flow.of d i.next registers)).get? c := by
  rw [← map_place_created] at hc
  rw [(s.step_enters d i registers).1, get?_foldl_enter_of_not_mem _ hc]
  rfl

theorem movesSymbols_step (hi : i.branch = d.opcode.branch?.isSome) :
    s.MovesSymbols (Flow.of d i.next registers) i.branch (s.step d i registers).2 (s.step d i registers).1 where
  symbolized := by rw [symbolized_step, Bool.and_eq_true, readsSymbol_iff]
  given n l hl c hc := by
    have hapart := apart_renewed hi i.next registers (s.step d i registers).2.symbolized
    rw [← map_place_created] at hl hapart
    rw [(s.step_enters d i registers).1, get?_foldl_enter _ hapart hl hc]
    rfl
  lost hon hs l hl c hc := by
    have hreads : s.readsSymbol (Flow.of d i.next registers) = false := by
      rwa [symbolized_step, hon, Bool.true_and] at hs
    rw [get?_step_of_not_renewed _ _ (by simp [Flow.renewed, hs]), released,
      if_pos ⟨hon, (s.filterMap_symbolAt_eq_nil_iff _).2 hreads⟩, Marks.get?_foldl_put,
      if_pos (List.mem_flatMap.2 ⟨l, hl, hc⟩)]
  kept c hc := by
    have hwritten : c ∉ (Flow.of d i.next registers).destinations.flatMap Location.cells := fun h => by
      obtain ⟨l, hl, hcl⟩ := List.mem_flatMap.1 h
      exact hc l (List.mem_append_left _ hl) hcl
    rw [get?_step_of_not_renewed _ _ fun l hl => hc l (List.mem_append_right _ hl), released]
    split
    · rw [Marks.get?_foldl_put, if_neg hwritten]
    · rfl
  expressions := by
    obtain ⟨hstate, hnumbers⟩ := s.step_enters d i registers
    obtain ⟨more, hmore⟩ := s.expressions_step d i registers
    have hlength : (s.created d i registers).length =
        ((Flow.of d i.next registers).renewed i.branch (s.step d i registers).2.symbolized).length := by
      rw [← map_place_created, List.length_map]
    have hsize : more.size = (s.created d i registers).length := by
      have hgrown := size_foldl_enter (s.created d i registers) (s.spread d i registers)
      rw [← hstate, hmore, Array.size_append] at hgrown
      exact Nat.add_left_cancel hgrown
    exact ⟨more, hmore, hsize.trans hlength, hsize ▸ hnumbers⟩
  off hoff := by
    have hs : (s.step d i registers).2.symbolized = false := by rw [symbolized_step, hoff, Bool.false_and]
    have hcreated : s.created d i registers = [] := by
      rw [← List.map_eq_nil_iff (f := Expression.place), map_place_created, Flow.renewed, hs]
      rfl
    have hreleased : s.released (Flow.of d i.next registers) = s.symbols := if_neg fun h => by
      rw [hoff] at h
      exact Bool.false_ne_true h.1
    rw [(s.step_enters d i registers).1, hcreated]
    exact ⟨hreleased, rfl⟩

/-- What evaluating an instruction does, cell by cell, whatever its operands are, however they overlap, and wherever
they wrap. A range of memory is read or written only if its address is known. -/
theorem evaluate_moves (s : Shadow) (hd : X86.decodeWhole i.opcode = some d) (registers : RegisterFile) :
    ∃ j t k, Analyzer.disassemble s i = .ok j ∧ Analyzer.evaluate s j registers = .ok (t, k) ∧
      s.MovesTaint (Flow.of d j.next registers) k t ∧
      s.MovesSymbols (Flow.of d j.next registers) d.opcode.branch?.isSome k t ∧
      t = { s with taint := t.taint, symbols := t.symbols, expressions := t.expressions } ∧
      ∀ start size, .memory start size ∈ (Flow.of d j.next registers).sources ++
        (Flow.of d j.next registers).destinations → KnownRange d j.next registers start size := by
  have hframe : (s.step d (describe d i) registers).1 =
      { s with
        taint := (s.step d (describe d i) registers).1.taint
        symbols := (s.step d (describe d i) registers).1.symbols
        expressions := (s.step d (describe d i) registers).1.expressions } := by rw [step_fst]
  exact ⟨describe d i, (s.step d (describe d i) registers).1, (s.step d (describe d i) registers).2,
    s.disassemble_of_decodes hd, s.evaluate_describe hd registers, s.movesTaint_step registers d _,
    s.movesSymbols_step registers rfl, hframe, fun start size h => known_of_flow (List.mem_append.1 h)⟩

/-- An addition to memory that wraps around at the end of the address space, with taint behind the wrap. -/
theorem evaluate_moves_wrapping :
    let s : Shadow := addSource { symbolicOn := true } (.memory 3 1) "0x3"
    let i : Instruction := { address := 0x1000, thread := 1, opcode := [0x48, 0x01, 0x07] }
    let registers : RegisterFile := fun r => if r = .general 7 then some 0xfffffffffffffffc else none
    ∃ j t k, Analyzer.disassemble s i = .ok j ∧ Analyzer.evaluate s j registers = .ok (t, k) ∧
      k.tainted = true ∧ t.isTainted (.byte 0xfffffffffffffffc) = true ∧ t.isTainted (.register (.general 0)) = false ∧
      t.symbols.get? (.byte 0) = some 1 ∧ t.symbols.get? (.register .flags) = some 2 := by
  intro s i registers
  obtain ⟨d, hd⟩ : ∃ d, X86.decodeWhole i.opcode = some d := Option.isSome_iff_exists.1 (by decide +kernel)
  have hdecoded : d = ⟨.plain "add", [.memory (some 8) none (.sum (some ⟨.qword, 7⟩) none 0), .register ⟨.qword, 0⟩],
      [], 3⟩ := Option.some.inj (hd.symm.trans (by decide +kernel))
  obtain ⟨j, t, k, hj, hk, htaint, hsymbols, -, -⟩ := s.evaluate_moves hd registers
  obtain rfl : describe d i = j := Except.ok.inj ((s.disassemble_of_decodes hd).symm.trans hj)
  have hflow : Flow.of d (describe d i).next registers =
      { sources := [.memory 0xfffffffffffffffc 8, .register (.general 0)]
        destinations := [.memory 0xfffffffffffffffc 8, .register .flags] } := by
    rw [hdecoded]
    decide +kernel
  rw [hflow] at htaint hsymbols
  have htainted : k.tainted = true := htaint.tainted.2 ⟨rfl, _, .head _, .byte 3, by decide +kernel, by decide +kernel⟩
  have hsymbolized : k.symbolized = true :=
    hsymbols.symbolized.2 ⟨rfl, _, .head _, .byte 3, by decide +kernel, by decide +kernel⟩
  refine ⟨_, t, k, hj, hk, htainted, ?_, ?_, ?_, ?_⟩
  · rw [htaint.written rfl _ (.head _) _ (by decide +kernel), htainted]
  · rw [htaint.kept _ (by decide +kernel)]
    decide +kernel
  · refine hsymbols.given 0 (.memory 0xfffffffffffffffc 8) ?_ _ (by decide +kernel)
    rw [hsymbolized]
    rfl
  · refine hsymbols.given 1 (.register .flags) ?_ _ (by decide +kernel)
    rw [hsymbolized]
    rfl

end Step

end Shadow

end TaintReplay
