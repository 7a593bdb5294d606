import TaintReplay.Proofs.Analysis.Spread

/-!
# The sides of the analysis, each on its own

`Shadow.restrict` looks at some sides of a state alone: a side that is not looked at is off and empty.
`Instruction.restrict` does the same with a record. What the analysis does commutes with both (`step_restrict`,
`addSource_restrict`, `taintRegister_restrict`, `taintMemory_restrict`), so neither side depends on the other.
-/

namespace TaintReplay

/-- The sides of the analysis that are looked at. -/
structure Sides where
  taint : Bool
  symbols : Bool

/-- The record, with nothing from the sides that are not looked at. -/
def Instruction.restrict (i : Instruction) (v : Sides) : Instruction :=
  { i with
    operands := i.operands.map fun o => { o with tainted := o.tainted && v.taint }
    tainted := i.tainted && v.taint
    symbolized := i.symbolized && v.symbols
    expressions := if v.symbols then i.expressions else [] }

namespace Shadow

/-- The state, with the sides that are not looked at off and empty. -/
def restrict (s : Shadow) (v : Sides) : Shadow where
  taintOn := s.taintOn && v.taint
  symbolicOn := s.symbolicOn && v.symbols
  taint := if v.taint then s.taint else {}
  symbols := if v.symbols then s.symbols else {}
  expressions := if v.symbols then s.expressions else #[]
  variableCount := if v.symbols then s.variableCount else 0

variable (s : Shadow) (v : Sides)

/-! ## Instructions -/

theorem spreadTaint_restrict (f : Flow) :
    (s.restrict v).spreadTaint f = ((s.spreadTaint f).1.restrict v, (s.spreadTaint f).2 && v.taint) := by
  obtain ⟨taint, symbols⟩ := v
  cases taint with
  | true =>
    unfold spreadTaint
    cases hon : s.taintOn <;> simp [restrict, hon]
  | false =>
    rw [spreadTaint_fst]
    simp [spreadTaint, restrict]

section Symbols

variable {v} (hv : v.symbols = true)
include hv

theorem addExpression_restrict (text : String) :
    (s.restrict v).addExpression text = ((s.addExpression text).1.restrict v, (s.addExpression text).2) := by
  simp [restrict, addExpression, hv]

theorem putSymbols_restrict (l : Location) (mark : Option Nat) :
    { s.restrict v with symbols := (s.restrict v).symbols.put l mark } =
      restrict { s with symbols := s.symbols.put l mark } v := by
  simp [restrict, hv]

theorem symbolAt_restrict : (s.restrict v).symbolAt = s.symbolAt := by
  funext l
  simp [symbolAt, restrict, hv]

/-- Expressions are numbered and written without a look at taint. -/
theorem assign_restrict (value : String) : ∀ (ls : List Location) (s : Shadow),
    (s.restrict v).assign value ls = ((s.assign value ls).1.restrict v, (s.assign value ls).2)
  | [], _ => rfl
  | l :: ls, s => by
    unfold assign
    rw [addExpression_restrict s hv]
    dsimp only
    rw [putSymbols_restrict _ hv, assign_restrict value ls]

end Symbols

theorem spreadSymbols_restrict (f : Flow) (text : String) : (s.restrict v).spreadSymbols f text =
    ((s.spreadSymbols f text).1.restrict v, if v.symbols then (s.spreadSymbols f text).2 else none) := by
  cases hv : v.symbols with
  | true =>
    have hon : (s.restrict v).symbolicOn = s.symbolicOn := by simp [restrict, hv]
    unfold spreadSymbols
    rw [symbolAt_restrict s hv, hon]
    split
    · split
      · simp [restrict, hv]
      · dsimp only
        rw [assign_restrict hv]
        rfl
    · rfl
  | false =>
    rw [spreadSymbols_fst]
    simp [spreadSymbols, restrict, hv]

section Step

variable (d : X86.Instruction) (i : Instruction) (registers : RegisterFile)

theorem recordDecision_restrict : (s.restrict v).recordDecision d (i.restrict v) registers =
    ((s.recordDecision d i registers).1.restrict v, (s.recordDecision d i registers).2.restrict v) := by
  have hbranch : (i.restrict v).branch = i.branch := rfl
  unfold recordDecision
  rw [hbranch]
  split
  · cases hv : v.symbols with
    | true =>
      have hsymbolized : (i.restrict v).symbolized = i.symbolized := by simp [Instruction.restrict, hv]
      dsimp only
      rw [hsymbolized]
      split
      · rw [addExpression_restrict s hv]
        dsimp only
        rw [putSymbols_restrict _ hv]
        simp [Instruction.restrict, hv]
      · simp [Instruction.restrict, hv]
    | false =>
      -- the decision may get an expression, which is not looked at
      cases hs : i.symbolized <;> simp [Instruction.restrict, restrict, addExpression, hv, hs]
  · rfl

theorem operandsOf_restrict (next : UInt64) : (s.restrict v).operandsOf d next registers =
    (s.operandsOf d next registers).map fun o => { o with tainted := o.tainted && v.taint } := by
  have htouches (l : Location) : (s.restrict v).taint.touches l = (s.taint.touches l && v.taint) := by
    cases hv : v.taint <;> simp [restrict, hv, Marks.touches]
  unfold operandsOf
  rw [List.map_map]
  refine List.map_congr_left fun resolved _ => ?_
  simp only [Function.comp_apply, htouches]
  cases hv : v.taint <;> simp [restrict, hv]

theorem beforeDecision_restrict : (s.restrict v).beforeDecision d i registers =
    ((s.beforeDecision d i registers).1.restrict v,
      if v.symbols then (s.beforeDecision d i registers).2 else none) := by
  unfold beforeDecision
  rw [spreadTaint_restrict]
  exact spreadSymbols_restrict _ v _ _

theorem recordBeforeDecision_restrict :
    (s.restrict v).recordBeforeDecision d i registers = (s.recordBeforeDecision d i registers).restrict v := by
  unfold recordBeforeDecision
  rw [operandsOf_restrict, spreadTaint_restrict, beforeDecision_restrict]
  cases hv : v.symbols <;> simp [Instruction.restrict, hv]

/-- What an instruction does to one side depends on this side alone. -/
theorem step_restrict : (s.restrict v).step d i registers =
    ((s.step d i registers).1.restrict v, (s.step d i registers).2.restrict v) := by
  rw [step_eq, step_eq, recordBeforeDecision_restrict, beforeDecision_restrict]
  exact recordDecision_restrict ..

end Step

/-! ## Sources -/

theorem addSource_restrict (l : Location) (origin : String) :
    (s.restrict v).addSource l origin = (s.addSource l origin).restrict v := by
  obtain ⟨taint, symbols⟩ := v
  unfold addSource
  cases taint <;> cases symbols <;> cases ht : s.taintOn <;> cases hs : s.symbolicOn <;>
    simp [restrict, addVariable, addExpression, ht, hs]

theorem taintRegister_restrict (name : String) :
    (s.restrict v).taintRegister name = (s.taintRegister name).map (·.restrict v) := by
  unfold taintRegister
  split
  · rw [addSource_restrict]
    rfl
  · rfl

theorem taintMemory_restrict (start : UInt64) (length : Nat) :
    (s.restrict v).taintMemory start length = (s.taintMemory start length).restrict v :=
  List.foldl_hom (fun t : Shadow => t.restrict v) fun t _ => t.addSource_restrict v _ _

end Shadow

end TaintReplay
