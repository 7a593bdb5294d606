import Mathlib.Data.List.Basic
import TaintReplay.Proofs.Analysis.Spread

/-!
# The table of expressions

An `Expression` is what an expression's text says: a variable that stands for a source, what an instruction writes to a
place, or the decision of a branch. Sources and instructions do nothing to the expressions but add some of them, each
with the place that comes to hold it (`addSource_eq`, `step_enters`), so a shadow state is `Built` along with the table
of its expressions. What `Tabled` says of the two is kept when an expression is added (`Tabled.enter`), and holds of all
that is built (`Built.tabled`): the texts are those of the table, each expression is newer than those it is made from,
the variables are numbered in order, and a cell holds the latest expression that was written to it.
-/

namespace TaintReplay

/-- An expression, as the operation that adds it has it. -/
inductive Expression where
  /-- The unknown value at a source. -/
  | source (number : Nat) (place : Location) (origin : String)
  /-- What an instruction writes to a place, from the expressions that its sources hold. -/
  | assigned (place : Location) (text : String) (parents : List Nat)
  /-- Where a conditional branch leads. -/
  | decision (text : String) (target next : UInt64)
  deriving DecidableEq, Repr

namespace Expression

/-- The place that comes to hold the expression. -/
def place : Expression → Location
  | source _ place _ | assigned place _ _ => place
  | decision _ _ _ => .register .counter

/-- The numbers of the expressions that it is made from. -/
def parents : Expression → List Nat
  | assigned _ _ parents => parents
  | _ => []

/-- The number of a variable among the variables. -/
def number? : Expression → Option Nat
  | source number _ _ => some number
  | _ => none

def render : Expression → String
  | source number _ origin => "SymVar_" ++ toString number ++ " (" ++ origin ++ ")"
  | assigned place text parents =>
    place.render ++ " := " ++ (text ++ " (" ++ String.intercalate ", " (parents.map fun n => "#" ++ toString n) ++ ")")
  | decision text target next => Shadow.decisionText text target next

/-- The `n`-th expression of the table is the latest that was written to the cell. -/
def Latest (table : List Expression) (c : Cell) (n : Nat) : Prop :=
  (∃ e, table[n]? = some e ∧ c ∈ e.place.cells) ∧
    ∀ (k : Nat) (e : Expression), table[k]? = some e → c ∈ e.place.cells → k ≤ n

theorem Latest.append_singleton {table : List Expression} {c : Cell} {n : Nat} (h : Latest table c n) {e : Expression}
    (he : c ∉ e.place.cells) : Latest (table ++ [e]) c n := by
  obtain ⟨⟨f, hf, hc⟩, hlatest⟩ := h
  refine ⟨⟨f, ?_, hc⟩, fun k g hg hcg => ?_⟩
  · rw [List.getElem?_append_left (List.getElem?_eq_some_iff.1 hf).1]
    exact hf
  · rw [List.getElem?_append] at hg
    split at hg
    · exact hlatest k g hg hcg
    · rw [List.mem_singleton.1 (List.mem_of_getElem? hg)] at hcg
      exact absurd hcg he

theorem latest_append_singleton {table : List Expression} {c : Cell} {e : Expression} (he : c ∈ e.place.cells) :
    Latest (table ++ [e]) c table.length := by
  refine ⟨⟨e, by simp, he⟩, fun k f hf _ => ?_⟩
  have hk := (List.getElem?_eq_some_iff.1 hf).1
  rw [List.length_append, List.length_singleton] at hk
  omega

end Expression

namespace Shadow

variable (s : Shadow)

/-- Adds an expression, and has its place hold it. -/
def enter (e : Expression) : Shadow :=
  { s with
    symbols := s.symbols.put e.place (some s.expressions.size)
    expressions := s.expressions.push (numbered s.expressions.size e.render)
    variableCount := s.variableCount + e.number?.toList.length }

theorem size_foldl_enter (es : List Expression) : ∀ s : Shadow,
    (es.foldl enter s).expressions.size = s.expressions.size + es.length := by
  induction es with
  | nil => exact fun _ => rfl
  | cons e es ih =>
    intro s
    rw [List.foldl_cons, ih]
    simp [enter]
    omega

/-! ## What sources and instructions add -/

/-- The expressions that a source adds. -/
def sown (l : Location) (origin : String) : List Expression :=
  if s.symbolicOn then [.source s.variableCount l origin] else []

/-- A source adds its expression, and else marks its place as tainted. -/
theorem addSource_eq (l : Location) (origin : String) : s.addSource l origin =
    (s.sown l origin).foldl enter
      { s with taint := if s.taintOn then s.taint.put l (taintMark true) else s.taint } := by
  obtain ⟨taintOn, symbolicOn, _⟩ := s
  cases taintOn <;> cases symbolicOn <;> rfl

/-- The expressions that spreading along a flow adds: one for each destination, if a source holds one. -/
def assigned (f : Flow) (text : String) : List Expression :=
  let parents := f.sources.filterMap s.symbolAt
  if s.symbolicOn = true ∧ parents ≠ [] then f.destinations.map (.assigned · text parents) else []

/-- The marks after the destinations of a flow have lost what they hold, if no source holds an expression. -/
def released (f : Flow) : Marks Nat :=
  if s.symbolicOn = true ∧ f.sources.filterMap s.symbolAt = [] then
    f.destinations.foldl (fun m l => m.put l none) s.symbols
  else s.symbols

/-- Giving destinations expressions adds these, and they are numbered one after the other. -/
theorem assign_eq (text : String) (parents : List Nat) (ls : List Location) : ∀ s : Shadow,
    s.assign (text ++ " (" ++ String.intercalate ", " (parents.map fun n => "#" ++ toString n) ++ ")") ls =
      ((ls.map (.assigned · text parents)).foldl enter s, List.range' s.expressions.size ls.length) := by
  induction ls with
  | nil => exact fun _ => rfl
  | cons l ls ih =>
    intro s
    have hfirst : s.assign (text ++ " (" ++ String.intercalate ", " (parents.map fun n => "#" ++ toString n) ++ ")")
        (l :: ls) = (((s.enter (.assigned l text parents)).assign _ ls).1,
          s.expressions.size :: ((s.enter (.assigned l text parents)).assign _ ls).2) := rfl
    rw [hfirst, ih]
    simp [List.range'_succ, enter]

theorem spreadSymbols_eq (f : Flow) (text : String) : s.spreadSymbols f text =
    ((s.assigned f text).foldl enter { s with symbols := s.released f },
      if s.symbolicOn = true ∧ f.sources.filterMap s.symbolAt ≠ [] then
        some (List.range' s.expressions.size (s.assigned f text).length)
      else none) := by
  unfold spreadSymbols assigned released
  by_cases hon : s.symbolicOn = true
  · rw [if_pos hon]
    cases hparents : f.sources.filterMap s.symbolAt with
    | nil =>
      have hnone : ¬(s.symbolicOn = true ∧ ([] : List Nat) ≠ []) := fun h => h.2 rfl
      rw [if_pos ⟨hon, rfl⟩, if_neg hnone, if_neg hnone]
      rfl
    | cons parent parents =>
      have hsome : s.symbolicOn = true ∧ parent :: parents ≠ [] := ⟨hon, List.cons_ne_nil _ _⟩
      dsimp only
      rw [if_neg fun h => hsome.2 h.2, if_pos hsome, if_pos hsome, assign_eq, List.length_map]
  · rw [if_neg hon, if_neg fun h => hon h.1, if_neg fun h => hon h.1, if_neg fun h => hon h.1]
    rfl

/-- The decision that an instruction adds. -/
def decided (i : Instruction) : List Expression :=
  if i.branch && i.symbolized then [.decision i.text (i.target.getD i.next) i.next] else []

theorem recordDecision_eq (d : X86.Instruction) (i : Instruction) (registers : RegisterFile) :
    (s.recordDecision d i registers).1 = (decided i).foldl enter s ∧
      (s.recordDecision d i registers).2.expressions =
        i.expressions ++ List.range' s.expressions.size (decided i).length := by
  unfold recordDecision decided
  cases hb : i.branch with
  | false => exact ⟨rfl, (List.append_nil _).symm⟩
  | true =>
    dsimp only
    rw [if_pos rfl, Bool.true_and]
    cases hs : i.symbolized with
    | false => exact ⟨rfl, (List.append_nil _).symm⟩
    | true => exact ⟨rfl, rfl⟩

section Step

variable (d : X86.Instruction) (i : Instruction) (registers : RegisterFile)

/-- The expressions that an instruction adds. -/
def created : List Expression :=
  s.assigned (Flow.of d i.next registers) i.text ++ decided (s.recordBeforeDecision d i registers)

/-- The shadow state before an instruction adds its expressions. -/
def spread : Shadow :=
  { s with
    taint := (s.spreadTaint (Flow.of d i.next registers)).1.taint
    symbols := s.released (Flow.of d i.next registers) }

theorem beforeDecision_eq : s.beforeDecision d i registers =
    ((s.assigned (Flow.of d i.next registers) i.text).foldl enter (s.spread d i registers),
      if s.symbolicOn = true ∧ (Flow.of d i.next registers).sources.filterMap s.symbolAt ≠ [] then
        some (List.range' s.expressions.size (s.assigned (Flow.of d i.next registers) i.text).length)
      else none) := by
  rw [beforeDecision, spreadTaint_fst, spreadSymbols_eq]
  rfl

theorem expressions_recordBeforeDecision : (s.recordBeforeDecision d i registers).expressions =
    List.range' s.expressions.size (s.assigned (Flow.of d i.next registers) i.text).length := by
  show (s.beforeDecision d i registers).2.getD [] = _
  rw [beforeDecision_eq]
  dsimp only
  split
  · rfl
  · rename_i hnone
    rw [assigned, if_neg hnone]
    rfl

/-- An instruction adds its expressions, and its record lists their numbers. -/
theorem step_enters : (s.step d i registers).1 = (s.created d i registers).foldl enter (s.spread d i registers) ∧
    (s.step d i registers).2.expressions = List.range' s.expressions.size (s.created d i registers).length := by
  obtain ⟨hstate, hnumbers⟩ := recordDecision_eq (s.beforeDecision d i registers).1 d
    (s.recordBeforeDecision d i registers) registers
  rw [step_eq, hstate, hnumbers, expressions_recordBeforeDecision, beforeDecision_eq, created, List.foldl_append]
  refine ⟨rfl, ?_⟩
  rw [size_foldl_enter, List.length_append, ← List.range'_append_1]
  rfl

end Step

/-- An instruction only lets go of expressions before it adds its own. -/
theorem get?_of_get?_released (f : Flow) (c : Cell) (n : Nat) (h : (s.released f).get? c = some n) :
    s.symbols.get? c = some n := by
  unfold released at h
  split at h
  · rw [Marks.get?_foldl_put] at h
    split at h
    · cases h
    · exact h
  · exact h

/-- What an instruction adds is made from what its sources hold, or is a decision. -/
theorem mem_created {d : X86.Instruction} {i : Instruction} {registers : RegisterFile} {e : Expression}
    (h : e ∈ s.created d i registers) :
    (∃ l ∈ (Flow.of d i.next registers).destinations,
      e = .assigned l i.text ((Flow.of d i.next registers).sources.filterMap s.symbolAt)) ∨
        e = .decision i.text (i.target.getD i.next) i.next := by
  unfold created at h
  rcases List.mem_append.1 h with h | h
  · unfold assigned at h
    dsimp only at h
    split at h
    · obtain ⟨l, hl, rfl⟩ := List.mem_map.1 h
      exact .inl ⟨l, hl, rfl⟩
    · cases h
  · unfold decided at h
    split at h
    · exact .inr (List.mem_singleton.1 h)
    · cases h

/-! ## States with their tables -/

/-- The shadow state has come from sources and instructions, which have added the expressions of the table. -/
inductive Built : Shadow → List Expression → Prop
  | fresh (taintOn symbolicOn : Bool) : Built { taintOn, symbolicOn } []
  | source {s : Shadow} {table : List Expression} (h : Built s table) (l : Location) (origin : String) :
      Built (s.addSource l origin) (table ++ s.sown l origin)
  | step {s : Shadow} {table : List Expression} (h : Built s table) (d : X86.Instruction) (i : Instruction)
      (registers : RegisterFile) : Built (s.step d i registers).1 (table ++ s.created d i registers)

/-- What holds of a shadow state and the table of its expressions. -/
structure Tabled (s : Shadow) (table : List Expression) : Prop where
  /-- The texts are those of the table, with their numbers in front. -/
  texts : s.expressions.toList = table.mapIdx fun n e => numbered n e.render
  /-- An expression is newer than those it is made from. -/
  founded : ∀ (n : Nat) (e : Expression), table[n]? = some e → ∀ p ∈ e.parents, p < n
  /-- The variables are numbered in the order of the table, and counted. -/
  numbers : table.filterMap Expression.number? = List.range s.variableCount
  /-- A cell holds the latest expression that was written to it, if it holds one. -/
  latest : ∀ (c : Cell) (n : Nat), s.symbols.get? c = some n → Expression.Latest table c n

namespace Tabled

variable {s : Shadow} {table : List Expression}

theorem size_eq (h : s.Tabled table) : s.expressions.size = table.length := by
  rw [← Array.length_toList, h.texts, List.length_mapIdx]

theorem getElem?_expressions (h : s.Tabled table) (n : Nat) :
    s.expressions[n]? = table[n]?.map fun e => numbered n e.render := by
  rw [← Array.getElem?_toList, h.texts, List.getElem?_mapIdx]

/-- What a location holds is in the table. -/
theorem symbolAt_lt (h : s.Tabled table) {l : Location} {n : Nat} (hn : s.symbolAt l = some n) : n < table.length := by
  obtain ⟨c, -, hc⟩ := List.mem_filterMap.1 (List.max?_mem hn)
  obtain ⟨e, he, -⟩ := (h.latest c n hc).1
  exact (List.getElem?_eq_some_iff.1 he).1

/-- Marks that have no new expressions, and any taint, do no harm. -/
theorem release (h : s.Tabled table) (taint : Marks Unit) {symbols : Marks Nat}
    (hsymbols : ∀ c n, symbols.get? c = some n → s.symbols.get? c = some n) :
    Tabled { s with taint, symbols } table :=
  ⟨h.texts, h.founded, h.numbers, fun c n hn => h.latest c n (hsymbols c n hn)⟩

/-- An expression may be added if those it is made from are there, and if its number is next in case it is a
variable. -/
theorem enter (h : s.Tabled table) {e : Expression} (hparents : ∀ p ∈ e.parents, p < table.length)
    (hnumber : ∀ n ∈ e.number?, n = s.variableCount) : (s.enter e).Tabled (table ++ [e]) where
  texts := by
    rw [List.mapIdx_append, ← h.texts]
    simp [Shadow.enter, h.size_eq]
  founded n f hf := by
    rw [List.getElem?_append] at hf
    split at hf
    · exact h.founded n f hf
    · rename_i hn
      rw [List.mem_singleton.1 (List.mem_of_getElem? hf)]
      exact fun p hp => Nat.lt_of_lt_of_le (hparents p hp) (Nat.le_of_not_lt hn)
  numbers := by
    rw [List.filterMap_append, h.numbers]
    cases hn : e.number? with
    | none => simp [Shadow.enter, hn]
    | some n =>
      have hnext : n = s.variableCount := hnumber n hn
      simp [Shadow.enter, hn, hnext, List.range_succ]
  latest c n hn := by
    dsimp only [Shadow.enter] at hn
    rw [Marks.get?_put] at hn
    -- the cells of the new place hold the new expression, and for all others it is none to be later than
    split at hn
    · rename_i hc
      rw [← Option.some.inj hn, h.size_eq]
      exact Expression.latest_append_singleton hc
    · rename_i hc
      exact (h.latest c n hn).append_singleton hc

/-- Expressions that are no variables may be added one after the other if those they are made from are there. -/
theorem foldl_enter (es : List Expression) (hnumber : ∀ e ∈ es, e.number? = none) : ∀ {s : Shadow}
    {table : List Expression}, s.Tabled table → (∀ e ∈ es, ∀ p ∈ e.parents, p < table.length) →
      (es.foldl Shadow.enter s).Tabled (table ++ es) := by
  induction es with
  | nil => exact fun h _ => by simpa using h
  | cons e es ih =>
    intro s table h hparents
    rw [List.forall_mem_cons] at hnumber hparents
    have hentered := h.enter hparents.1 (by simp [hnumber.1])
    have hrest := ih hnumber.2 hentered fun f hf p hp => by
      rw [List.length_append]
      exact Nat.lt_add_right _ (hparents.2 f hf p hp)
    rw [List.append_assoc, List.singleton_append] at hrest
    exact hrest

theorem addSource (h : s.Tabled table) (l : Location) (origin : String) :
    (s.addSource l origin).Tabled (table ++ s.sown l origin) := by
  have hmarked (taint : Marks Unit) : Tabled { s with taint } table := h.release taint fun _ _ hn => hn
  rw [addSource_eq]
  generalize (if s.taintOn then s.taint.put l (taintMark true) else s.taint) = taint
  unfold sown
  split
  · have hnext : ∀ n ∈ (Expression.source s.variableCount l origin).number?, n = s.variableCount :=
      fun n hn => (Option.some.inj hn).symm
    exact (hmarked taint).enter nofun hnext
  · rw [List.append_nil]
    exact hmarked taint

theorem step (h : s.Tabled table) (d : X86.Instruction) (i : Instruction) (registers : RegisterFile) :
    (s.step d i registers).1.Tabled (table ++ s.created d i registers) := by
  have hspread : (s.spread d i registers).Tabled table := h.release _ (s.get?_of_get?_released _)
  rw [(s.step_enters d i registers).1]
  refine foldl_enter _ (fun e he => ?_) hspread fun e he p hp => ?_
  · rcases s.mem_created he with ⟨_, _, rfl⟩ | rfl <;> rfl
  · rcases s.mem_created he with ⟨_, _, rfl⟩ | rfl
    · obtain ⟨l, -, hl⟩ := List.mem_filterMap.1 hp
      exact h.symbolAt_lt hl
    · cases hp

end Tabled

theorem Built.tabled {s : Shadow} {table : List Expression} (h : s.Built table) : s.Tabled table := by
  induction h with
  | fresh => exact ⟨rfl, nofun, rfl, fun c n hn => by simp at hn⟩
  | source _ l origin ih => exact ih.addSource l origin
  | step _ d i registers ih => exact ih.step d i registers

/-- More sources add more expressions. -/
theorem Built.seeded {s t : Shadow} (hst : s.Seeded t) : ∀ {table : List Expression}, s.Built table →
    ∃ more, t.Built (table ++ more) := by
  induction hst with
  | refl => exact fun h => ⟨[], by simpa using h⟩
  | source _ l origin ih =>
    intro table h
    obtain ⟨more, hmore⟩ := ih h
    exact ⟨_, by simpa [List.append_assoc] using hmore.source l origin⟩

/-! ## What is read -/

/-- A location holds the newest of the expressions that its cells hold. -/
theorem symbolAt_eq_some_iff (s : Shadow) {l : Location} {n : Nat} : s.symbolAt l = some n ↔
    (∃ c ∈ l.cells, s.symbols.get? c = some n) ∧ ∀ c ∈ l.cells, ∀ k, s.symbols.get? c = some k → k ≤ n := by
  rw [symbolAt, List.max?_eq_some_iff, Marks.marksAt]
  simp only [List.mem_filterMap, forall_exists_index, and_imp]
  exact and_congr_right fun _ => ⟨fun h c hc k hk => h k c hc hk, fun h k c hc hk => h c hc k hk⟩

/-- Every expression that a record lists has its text, if it is there. -/
theorem map_expressionTexts (s : Shadow) {i : Instruction} (h : ∀ n ∈ i.expressions, n < s.expressions.size) :
    (Analyzer.expressionTexts s i).map some = i.expressions.map (s.expressions[·]?) := by
  have hfound : ∀ n ∈ i.expressions, s.expressions[n]? = some (s.expressions.getD n "") := fun n hn => by
    rw [Array.getD_eq_getD_getElem?, Array.getElem?_eq_getElem (h n hn)]
    rfl
  have htexts : Analyzer.expressionTexts s i = i.expressions.map fun n => s.expressions.getD n "" :=
    List.filterMap_eq_map_iff_forall_eq_some.2 hfound
  rw [htexts, List.map_map]
  exact List.map_congr_left fun n hn => (hfound n hn).symm

end Shadow

end TaintReplay
