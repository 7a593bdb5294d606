import Mathlib.Data.List.GetD
import TaintReplay.Proofs.Analysis.Flow
import TaintReplay.Proofs.Analysis.Spread

/-!
# The names under which registers are kept

What is known about a register is kept under the full register, and looked up by a name. Nothing is lost that way as
long as each register that is kept is `Named`: the one that its own name leads to. The registers that names lead to are
named (`Register.named_ofName`), and so are those that instructions encode, whatever the bank (`X86.Reg.named_full`). So
sources and instructions keep all marks of a shadow state on registers that are named (`Shadow.Named`).
-/

namespace TaintReplay

namespace Register

/-- The name of the full register that a name belongs to. -/
def canonical (name : String) : String := (ofName name).name

/-- The register is the one that its own name leads to. -/
def Named (r : Register) : Prop := ofName r.name = r

theorem named_ofName (name : String) : (ofName name).Named := ofName_name_ofName name

theorem Named.canonical_name {r : Register} (h : r.Named) : canonical r.name = r.name := congrArg name h

/-- Two names lead to one register iff the names of their full registers are equal. -/
theorem canonical_eq_iff (x y : String) : canonical x = canonical y ↔ ofName x = ofName y := by
  constructor
  · intro h
    have hnames := congrArg ofName h
    rwa [canonical, canonical, ofName_name_ofName, ofName_name_ofName] at hnames
  · intro h
    rw [canonical, canonical, h]

theorem named_general : ∀ n : Fin 16, (general n).Named := by
  show ∀ n : Fin 16, ofName (general n).name = general n
  decide +kernel

/-- A name that is not in the table names a register of its own. -/
theorem named_other {name : String} (h : ∀ a ∈ Alias.table, a.name ≠ name) : (other name).Named := by
  have hfind : Alias.find? name = none := by
    rw [Alias.find?, List.find?_eq_none]
    intro a ha
    simpa using h a ha
  show ofName name = other name
  rw [ofName, hfind]

/-- No alias begins like the numbered registers of a bank. -/
theorem named_numbered {front : String} (h : ∀ a ∈ Alias.table, ¬front.toList <+: a.name.toList) (rest : String) :
    (other (front ++ rest)).Named := by
  refine named_other fun a ha heq => h a ha ?_
  rw [heq, String.toList_append]
  exact List.prefix_append _ _

end Register

open Register

/-- The full register of an encoded one is named, whatever the bank. -/
theorem X86.Reg.named_full (r : X86.Reg) : r.full.Named := by
  obtain ⟨bank, index⟩ := r
  cases bank with
  | legacyByte | byte | word | dword | qword => exact named_general _
  | counter32 | counter64 => rfl
  | mmx | xmm | ymm | zmm | mask | control | debug => exact named_numbered (by decide +kernel) _
  | float =>
    show (other ("st(" ++ toString index ++ ")")).Named
    rw [String.append_assoc]
    exact named_numbered (by decide +kernel) _
  | segment =>
    have hnone : ∀ name ∈ ["es", "cs", "ss", "ds", "fs", "gs", ""], ∀ a ∈ Alias.table, a.name ≠ name := by
      decide +kernel
    refine named_other (hnone _ ?_)
    show ["es", "cs", "ss", "ds", "fs", "gs"].getD index "" ∈ _
    rcases Nat.lt_or_ge index 6 with h | h
    · rw [List.getD_eq_getElem _ _ h]
      exact List.mem_append_left [""] (List.getElem_mem h)
    · rw [List.getD_eq_default _ _ h]
      simp

/-! ## Maps of registers -/

namespace RegisterMap

variable {ν : Type}

/-- The registers that the map has an entry for. -/
def keys (m : RegisterMap ν) : List Register := m.entries.map (·.1)

theorem mem_keys_iff (m : RegisterMap ν) (r : Register) : r ∈ m.keys ↔ (m.get? r).isSome = true := by
  obtain ⟨entries⟩ := m
  simp only [keys, get?]
  induction entries with
  | nil => simp
  | cons e entries ih =>
    obtain ⟨k, x⟩ := e
    by_cases h : r = k
    · simp [h]
    · simp only [List.map_cons, List.mem_cons, h, false_or, List.lookup_cons, beq_eq_false_iff_ne.2 h, ih]

/-- All registers of the map are kept under their full names. -/
def Named (m : RegisterMap ν) : Prop := ∀ r ∈ m.keys, r.Named

theorem named_empty : ({} : RegisterMap ν).Named := by simp [Named, keys]

/-- A map stays named if what is new is entered by a name. -/
theorem Named.insert {m : RegisterMap ν} (h : m.Named) (name : String) (x : ν) : (m.insert (ofName name) x).Named := by
  intro r hr
  rw [mem_keys_iff, get?_insert] at hr
  by_cases hname : r = ofName name
  · rw [hname]
    exact named_ofName name
  · rw [if_neg hname] at hr
    exact h r ((m.mem_keys_iff r).2 hr)

/-- In a named map, what a name leads to has an entry iff an entry is kept under the canonical name. -/
theorem Named.isSome_get?_iff {m : RegisterMap ν} (h : m.Named) (x : String) :
    (m.get? (ofName x)).isSome = true ↔ canonical x ∈ m.keys.map name := by
  rw [← mem_keys_iff, List.mem_map]
  constructor
  · intro hx
    exact ⟨ofName x, hx, rfl⟩
  · rintro ⟨k, hk, hname⟩
    have hkey : ofName x = k := by rw [← h k hk, hname, canonical, ofName_name_ofName]
    rwa [hkey]

end RegisterMap

/-! ## The shadow state -/

namespace Shadow

/-- Registers with taint and registers with an expression are kept under their full names. -/
structure Named (s : Shadow) : Prop where
  taint : ∀ r, s.isTainted (.register r) = true → r.Named
  symbols : ∀ r, s.isSymbolic (.register r) = true → r.Named

variable {s : Shadow}

theorem Named.taint_keys (h : s.Named) : s.taint.registers.Named := by
  intro r hr
  exact h.taint r ((s.taint.registers.mem_keys_iff r).1 hr)

theorem Named.symbols_keys (h : s.Named) : s.symbols.registers.Named := by
  intro r hr
  exact h.symbols r ((s.symbols.registers.mem_keys_iff r).1 hr)

/-- What becomes a source has to be named. -/
theorem Named.addSource (h : s.Named) {l : Location} (hl : ∀ r, .register r ∈ l.cells → r.Named) (origin : String) :
    (s.addSource l origin).Named := by
  constructor
  · intro r hr
    rw [isTainted_addSource, Bool.or_eq_true, Bool.and_eq_true, decide_eq_true_eq] at hr
    rcases hr with ⟨-, hr⟩ | hr
    · exact hl r hr
    · exact h.taint r hr
  · intro r hr
    rw [isSymbolic_addSource, Bool.or_eq_true, Bool.and_eq_true, decide_eq_true_eq] at hr
    rcases hr with ⟨-, hr⟩ | hr
    · exact hl r hr
    · exact h.symbols r hr

theorem Named.taintRegister (h : s.Named) {t : Shadow} {name : String} (ht : s.taintRegister name = .ok t) :
    t.Named := by
  unfold Shadow.taintRegister at ht
  cases hfind : Alias.find? name with
  | none => simp [hfind] at ht
  | some a =>
    simp only [hfind, Except.ok.injEq] at ht
    rw [← ht]
    refine h.addSource ?_ _
    intro r hr
    obtain rfl : r = a.full := by simpa [Location.cells] using hr
    exact ofName_name_of_mem_table a (List.mem_of_find?_eq_some hfind)

theorem Named.taintMemory (h : s.Named) (start : UInt64) (length : Nat) : (s.taintMemory start length).Named := by
  unfold Shadow.taintMemory
  induction length with
  | zero => exact h
  | succ n ih =>
    rw [List.range_succ, List.foldl_append]
    refine ih.addSource ?_ _
    intro r hr
    simp [Location.cells] at hr

/-- The registers that an instruction writes are named. -/
theorem named_of_mem_written {d : X86.Instruction} {next : UInt64} {registers : RegisterFile} {r : Register}
    (hr : .register r ∈ (Flow.of d next registers).written) : r.Named := by
  obtain ⟨l, hl, hcell⟩ := List.mem_flatMap.1 hr
  have hlocation : l = .register r := by
    rcases Location.mem_cells_iff.1 hcell with ⟨r', rfl, hr'⟩ | ⟨_, _, _, _, _, hbyte⟩
    · rw [Cell.register.inj hr']
    · cases hbyte
  rw [hlocation] at hl
  have hoperand : .register r ∈ ((resolve d next (some registers)).map (·.2)).take 1 → r.Named := by
    intro hmem
    obtain ⟨operand, -, rfl⟩ := (located_of_mem_resolve (List.mem_of_mem_take hmem)).of_register
    exact operand.named_full
  have hflags : .register r ∈ [flagsLocation] → r.Named := by
    intro hmem
    obtain rfl : r = .flags := by simpa [flagsLocation] using hmem
    rfl
  unfold Flow.of at hl
  dsimp only at hl
  generalize (resolve d next (some registers)).map (·.2) = locations at hl hoperand
  cases heffect : Effect.of d.opcode locations with
  | assign | address | pop =>
    rw [heffect] at hl
    exact hoperand hl
  | update | clear =>
    rw [heffect] at hl
    rcases List.mem_append.1 hl with hl | hl
    · exact hoperand hl
    · exact hflags hl
  | compare =>
    rw [heffect] at hl
    exact hflags hl
  | push | branch | untracked =>
    rw [heffect] at hl
    simp [Effect.flow] at hl

theorem Named.step (h : s.Named) (d : X86.Instruction) (i : Instruction) (registers : RegisterFile) :
    (s.step d i registers).1.Named := by
  constructor
  · intro r hr
    rw [isTainted_step] at hr
    split at hr
    · rename_i hwritten
      exact named_of_mem_written hwritten.2
    · exact h.taint r hr
  · intro r hr
    rw [isSymbolic_step, Bool.or_eq_true] at hr
    rcases hr with hr | hr
    · obtain rfl : r = .counter := by simpa using (Bool.and_eq_true_iff.1 hr).2
      rfl
    · split at hr
      · rename_i hwritten
        exact named_of_mem_written hwritten.2
      · exact h.symbols r hr

end Shadow

end TaintReplay
