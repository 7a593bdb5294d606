import TaintReplay.Proofs.Analysis.Spread

/-!
# Taint of several sources

Taint flows from each source as if there were no others. `Shadow.feed` disassembles and evaluates a record and skips
one whose bytes are no instruction; `Shadow.feedAll` feeds a whole sequence. A state that `Joins` two others has the
taint of both and no more. It reads taint iff one of them does (`Joins.readsTaint`), so it still joins them after an
instruction (`Joins.step`) and after a sequence, with records that are `Joined` at every position (`Joins.feedAll`).
Hence the taint of a union is the union of the taints (`isTainted_feedAll_union`).
-/

namespace TaintReplay

namespace RegisterMap

variable {ν : Type}

/-- The values of both maps; those of the first go before. -/
def union (m n : RegisterMap ν) : RegisterMap ν := ⟨m.entries ++ n.entries⟩

theorem get?_union (m n : RegisterMap ν) (r : Register) : (m.union n).get? r = (m.get? r).or (n.get? r) :=
  List.lookup_append

end RegisterMap

namespace Marks

variable {ν : Type}

/-- The marks of both; those of the second go before on bytes. -/
def union (m n : Marks ν) : Marks ν := ⟨m.registers.union n.registers, m.bytes ∪ n.bytes⟩

theorem isSome_get?_union (m n : Marks ν) (c : Cell) :
    ((m.union n).get? c).isSome = ((m.get? c).isSome || (n.get? c).isSome) := by
  cases c with
  | register r => simp [union, get?, RegisterMap.get?_union]
  | byte a => simp [union, get?]

end Marks

namespace Shadow

/-! ## Sequences of instructions -/

/-- Disassembles and evaluates a record. One whose bytes are no instruction is skipped. -/
def feed (s : Shadow) (i : Instruction) (registers : RegisterFile) : Shadow × Option Instruction :=
  match Analyzer.disassemble s i with
  | .error _ => (s, none)
  | .ok i =>
    match Analyzer.evaluate s i registers with
    | .error _ => (s, none)
    | .ok (s, i) => (s, some i)

/-- Feeds records one after the other, each with the registers that it meets. Gives what came of each, in order. -/
def feedAll : Shadow → List (Instruction × RegisterFile) → Shadow × List (Option Instruction)
  | s, [] => (s, [])
  | s, (i, registers) :: inputs =>
    let (s, record) := s.feed i registers
    let (s, records) := s.feedAll inputs
    (s, record :: records)

variable (s : Shadow) (i : Instruction) (registers : RegisterFile)

/-- A record whose bytes are one instruction takes the step of this instruction. -/
theorem feed_of_decodes {d : X86.Instruction} (hd : X86.decodeWhole i.opcode = some d) :
    s.feed i registers = ((s.step d (describe d i) registers).1, some (s.step d (describe d i) registers).2) := by
  unfold feed
  rw [s.disassemble_of_decodes hd]
  dsimp only
  rw [s.evaluate_describe hd]

/-- A record whose bytes are no instruction is skipped. -/
theorem feed_of_not_decodes (hd : X86.decodeWhole i.opcode = none) : s.feed i registers = (s, none) := by
  unfold feed
  rw [s.disassemble_of_not_decodes hd]

/-! ## Joint taint -/

theorem operands_step (d : X86.Instruction) :
    (s.step d i registers).2.operands = s.operandsOf d i.next registers := by rw [step_snd]

/-- What the operands are does not depend on the taint. -/
theorem kinds_operandsOf (d : X86.Instruction) (next : UInt64) :
    (s.operandsOf d next registers).map (·.kind) = (resolve d next (some registers)).map (·.1) := by
  unfold operandsOf
  rw [List.map_map]
  rfl

/-- An operand is tainted iff taint is on and its place is tainted. -/
theorem taints_operandsOf (d : X86.Instruction) (next : UInt64) : (s.operandsOf d next registers).map (·.tainted) =
    (resolve d next (some registers)).map fun o => s.taintOn && s.taint.touches o.2 := by
  unfold operandsOf
  rw [List.map_map]
  rfl

/-- Taint is on in all three states, and the last one has the taint of the other two and no more. -/
structure Joins (a b u : Shadow) : Prop where
  left : a.taintOn = true
  right : b.taintOn = true
  on : u.taintOn = true
  isTainted : ∀ c, u.isTainted c = (a.isTainted c || b.isTainted c)

/-- Of three records of one instruction, the last is tainted, as a whole and in each operand, iff one of the others
is. -/
inductive Joined : Option Instruction → Option Instruction → Option Instruction → Prop
  | skipped : Joined none none none
  | fed {i j k : Instruction} (tainted : k.tainted = (i.tainted || j.tainted))
      (kinds : i.operands.map (·.kind) = k.operands.map (·.kind) ∧ j.operands.map (·.kind) = k.operands.map (·.kind))
      (operands : k.operands.map (·.tainted) =
        List.zipWith (· || ·) (i.operands.map (·.tainted)) (j.operands.map (·.tainted))) :
      Joined (some i) (some j) (some k)

namespace Joins

variable {a b u : Shadow} (h : a.Joins b u)
include h

theorem touches (l : Location) : u.taint.touches l = (a.taint.touches l || b.taint.touches l) := by
  have hany : ∀ cells : List Cell, cells.any u.isTainted = (cells.any a.isTainted || cells.any b.isTainted) := by
    intro cells
    induction cells with
    | nil => rfl
    | cons c cells ih =>
      rw [List.any_cons, List.any_cons, List.any_cons, ih, h.isTainted]
      cases a.isTainted c <;> cases b.isTainted c <;> simp
  exact hany l.cells

/-- The joint state reads taint iff one of the others does. -/
theorem readsTaint (f : Flow) : u.readsTaint f = (a.readsTaint f || b.readsTaint f) := by
  unfold Shadow.readsTaint
  induction f.sources with
  | nil => rfl
  | cons l sources ih =>
    rw [List.any_cons, List.any_cons, List.any_cons, ih, h.touches]
    cases a.taint.touches l <;> cases b.taint.touches l <;> simp

/-- What an instruction writes is tainted iff the joint state reads taint, and all else keeps its taint. -/
theorem step (d : X86.Instruction) (i : Instruction) (registers : RegisterFile) :
    (a.step d i registers).1.Joins (b.step d i registers).1 (u.step d i registers).1 where
  left := by rw [step_fst, h.left]
  right := by rw [step_fst, h.right]
  on := by rw [step_fst, h.on]
  isTainted c := by
    rw [isTainted_step, isTainted_step, isTainted_step, h.left, h.right, h.on, h.readsTaint, h.isTainted]
    split <;> rfl

theorem joined_step (d : X86.Instruction) (i : Instruction) (registers : RegisterFile) :
    Joined (some (a.step d i registers).2) (some (b.step d i registers).2) (some (u.step d i registers).2) := by
  refine .fed ?_ ⟨?_, ?_⟩ ?_
  · rw [tainted_step, tainted_step, tainted_step, h.left, h.right, h.on, h.readsTaint]
    rfl
  · rw [operands_step, operands_step, kinds_operandsOf, kinds_operandsOf]
  · rw [operands_step, operands_step, kinds_operandsOf, kinds_operandsOf]
  · rw [operands_step, operands_step, operands_step, taints_operandsOf, taints_operandsOf, taints_operandsOf, h.left,
      h.right, h.on, List.zipWith_map, List.zipWith_self]
    simp only [Bool.true_and, h.touches]

/-- A record is fed to all three states or to none. -/
theorem feed (i : Instruction) (registers : RegisterFile) :
    (a.feed i registers).1.Joins (b.feed i registers).1 (u.feed i registers).1 ∧
      Joined (a.feed i registers).2 (b.feed i registers).2 (u.feed i registers).2 := by
  cases hd : X86.decodeWhole i.opcode with
  | none =>
    rw [feed_of_not_decodes a i registers hd, feed_of_not_decodes b i registers hd,
      feed_of_not_decodes u i registers hd]
    exact ⟨h, .skipped⟩
  | some d =>
    rw [feed_of_decodes a i registers hd, feed_of_decodes b i registers hd, feed_of_decodes u i registers hd]
    exact ⟨h.step d _ registers, h.joined_step d _ registers⟩

omit h in
theorem feedAll : ∀ (inputs : List (Instruction × RegisterFile)) {a b u : Shadow}, a.Joins b u →
    (a.feedAll inputs).1.Joins (b.feedAll inputs).1 (u.feedAll inputs).1 ∧
      ∀ n, Joined ((a.feedAll inputs).2.getD n none) ((b.feedAll inputs).2.getD n none)
        ((u.feedAll inputs).2.getD n none)
  | [], _, _, _, h => ⟨h, fun _ => .skipped⟩
  | (i, registers) :: inputs, a, b, u, h => by
    obtain ⟨hstate, hrecord⟩ := h.feed i registers
    obtain ⟨hend, hrecords⟩ := feedAll inputs hstate
    refine ⟨hend, fun n => ?_⟩
    cases n with
    | zero => exact hrecord
    | succ n => exact hrecords n

end Joins

/-- The state with taint on, and with this taint. -/
def withTaint (m : Marks Unit) : Shadow := { s with taintOn := true, taint := m }

theorem joins_union (m n : Marks Unit) : (s.withTaint m).Joins (s.withTaint n) (s.withTaint (m.union n)) :=
  ⟨rfl, rfl, rfl, m.isSome_get?_union n⟩

/-- A state and one with a source more have the taint of the latter together. -/
theorem joins_addSource (hs : s.taintOn = true) (l : Location) (origin : String) :
    s.Joins (s.addSource l origin) (s.addSource l origin) := by
  have hon : (s.addSource l origin).taintOn = true := (s.taintOn_addSource l origin).trans hs
  refine ⟨hs, hon, hon, fun c => ?_⟩
  rw [isTainted_addSource]
  cases s.isTainted c <;> simp

/-- Taint distributes over the union of sources. Whatever instructions are fed, those with the union of two taints leave
the union of what those with the one and those with the other leave, and at every position the record and its operands
are tainted iff they are with one of the two. So a source more takes taint away nowhere: whatever is tainted without it
is tainted with it, in the last state and in the records, since `Joined i k k` is just this of two records. -/
theorem isTainted_feedAll_union (m n : Marks Unit) (inputs : List (Instruction × RegisterFile)) :
    let a := (s.withTaint m).feedAll inputs
    let b := (s.withTaint n).feedAll inputs
    let u := (s.withTaint (m.union n)).feedAll inputs
    (∀ c, (m.union n |>.get? c).isSome = ((m.get? c).isSome || (n.get? c).isSome)) ∧
      (∀ c, u.1.isTainted c = (a.1.isTainted c || b.1.isTainted c)) ∧
      (∀ k, Joined (a.2.getD k none) (b.2.getD k none) (u.2.getD k none)) ∧
      ∀ l origin, let t := ((s.withTaint m).addSource l origin).feedAll inputs
        (∀ c, a.1.isTainted c = true → t.1.isTainted c = true) ∧
          ∀ k, Joined (a.2.getD k none) (t.2.getD k none) (t.2.getD k none) := by
  intro a b u
  obtain ⟨hstate, hrecords⟩ := Joins.feedAll inputs (s.joins_union m n)
  refine ⟨m.isSome_get?_union n, hstate.isTainted, hrecords, fun l origin => ?_⟩
  obtain ⟨hmore, hmoreRecords⟩ := Joins.feedAll inputs ((s.withTaint m).joins_addSource rfl l origin)
  refine ⟨fun c hc => ?_, hmoreRecords⟩
  rw [hmore.isTainted, Bool.or_eq_true]
  exact .inl hc

end Shadow

end TaintReplay
