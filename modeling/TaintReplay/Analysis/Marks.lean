import Std.Data.TreeMap
import TaintReplay.Analysis.Location

/-!
# Marks on cells

`Marks ν` holds for every cell at most one mark of type `ν`. Taint is `Marks Unit`; the symbolic state is `Marks Nat`,
the number of the newest expression that a cell holds. A location is marked or cleared cell by cell (`put`), and
`get?_put` says that nothing else changes.
-/

namespace TaintReplay

/-- Values of full registers, for those registers that have one. -/
structure RegisterMap (ν : Type) where
  entries : List (Register × ν) := []
  deriving DecidableEq, Repr

namespace RegisterMap

variable {ν : Type}

def get? (m : RegisterMap ν) (r : Register) : Option ν := m.entries.lookup r

def erase (m : RegisterMap ν) (r : Register) : RegisterMap ν := ⟨m.entries.filter (·.1 != r)⟩

def insert (m : RegisterMap ν) (r : Register) (x : ν) : RegisterMap ν := ⟨(r, x) :: (m.erase r).entries⟩

@[simp] theorem get?_empty (r : Register) : ({} : RegisterMap ν).get? r = none := rfl

theorem get?_erase (m : RegisterMap ν) (r s : Register) : (m.erase r).get? s = if s = r then none else m.get? s := by
  obtain ⟨entries⟩ := m
  simp only [get?, erase]
  induction entries with
  | nil => simp
  | cons e entries ih =>
    obtain ⟨k, x⟩ := e
    by_cases hk : k = r
    · subst hk
      by_cases hs : s = k
      · simpa [hs] using ih
      · simpa [List.lookup_cons, beq_eq_false_iff_ne.2 hs, hs] using ih
    · by_cases hs : s = k
      · simp [hk, hs]
      · simpa [List.lookup_cons, beq_eq_false_iff_ne.2 hs, hk] using ih

theorem get?_insert (m : RegisterMap ν) (r s : Register) (x : ν) :
    (m.insert r x).get? s = if s = r then some x else m.get? s := by
  have he := get?_erase m r s
  by_cases h : s = r
  · simp [get?, insert, h]
  · simpa [get?, insert, List.lookup_cons, beq_eq_false_iff_ne.2 h, h] using he

end RegisterMap

/-- At most one mark on every cell. -/
structure Marks (ν : Type) where
  registers : RegisterMap ν := {}
  bytes : Std.TreeMap UInt64 ν := {}

namespace Marks

variable {ν : Type}

def get? (m : Marks ν) : Cell → Option ν
  | .register r => m.registers.get? r
  | .byte a => m.bytes[a]?

/-- Marks a cell, or clears it. -/
def putCell (m : Marks ν) (c : Cell) (mark : Option ν) : Marks ν :=
  match c, mark with
  | .register r, some x => { m with registers := m.registers.insert r x }
  | .register r, none => { m with registers := m.registers.erase r }
  | .byte a, some x => { m with bytes := m.bytes.insert a x }
  | .byte a, none => { m with bytes := m.bytes.erase a }

/-- Marks every cell of a location, or clears all of them. -/
def put (m : Marks ν) (l : Location) (mark : Option ν) : Marks ν := l.cells.foldl (fun m c => m.putCell c mark) m

/-- The marks on the cells of a location. -/
def marksAt (m : Marks ν) (l : Location) : List ν := l.cells.filterMap m.get?

/-- Is any cell of the location marked? -/
def touches (m : Marks ν) (l : Location) : Bool := l.cells.any fun c => (m.get? c).isSome

@[simp] theorem get?_empty (c : Cell) : ({} : Marks ν).get? c = none := by
  cases c
  · rfl
  · exact Std.TreeMap.getElem?_emptyc

theorem get?_putCell (m : Marks ν) (c d : Cell) (mark : Option ν) :
    (m.putCell c mark).get? d = if d = c then mark else m.get? d := by
  cases c <;> cases mark <;> cases d <;>
    simp [putCell, get?, RegisterMap.get?_insert, RegisterMap.get?_erase, Std.TreeMap.getElem?_insert,
      Std.TreeMap.getElem?_erase, Std.LawfulEqCmp.compare_eq_iff_eq] <;>
    simp only [eq_comm]

/-- Marking a location changes its own cells and no others. -/
theorem get?_put (m : Marks ν) (l : Location) (mark : Option ν) (d : Cell) :
    (m.put l mark).get? d = if d ∈ l.cells then mark else m.get? d := by
  unfold put
  generalize l.cells = cells
  induction cells generalizing m with
  | nil => simp
  | cons c cells ih =>
    simp only [List.foldl_cons, ih, get?_putCell, List.mem_cons]
    by_cases h₁ : d ∈ cells <;> by_cases h₂ : d = c <;> simp [h₁, h₂]

end Marks

end TaintReplay
