import TaintReplay.Proofs.Analysis.Transfer
import TaintReplay.Proofs.Analysis.Union

/-!
# The marks of the flags

Moves, extensions, `lea`, pushes, pops, jumps, calls, returns, `nop` and conditional branches do not write the flags
(`not_mem_destinations_of_keepsFlags`), so they leave the taint and the expression of the flags alone, one by one and
in a row (`SameFlags`, `sameFlags_feedAll`). Every other operation gives the flags its own marks, for the flags are
always among what it writes and never among what it reads (`isTainted_flags_step`). A conditional branch reads the
flags, so it carries the marks of the last instruction before it that is none of the former (`branch_after_kept`).

Operations that leave the flags of the processor alone are among the others as well: a `not` between a comparison and a
jump hides the jump (`exists_branch_hidden`).
-/

namespace TaintReplay

/-- Does the operation leave the marks of the flags alone? -/
def X86.Opcode.keepsFlags : X86.Opcode → Bool
  | mov | movzx | movsx | movsxd | lea | push | pop | jmp | call | ret | nop | branch _ => true
  | cmp | test | xor | sub | plain _ => false

/-- The cell of the flags. -/
def flagsCell : Cell := .register .flags

/-! ## Flows -/

section Flow

variable {d : X86.Instruction} {next : UInt64} {registers : RegisterFile}

/-- No operand lives in the flags. -/
theorem flags_not_mem_of_mem_resolve {l : Location} (hl : l ∈ (resolve d next (some registers)).map (·.2)) :
    flagsCell ∉ l.cells :=
  fun hc => (located_of_mem_resolve hl).apart_flags _ hc (List.mem_singleton_self _)

theorem effect_of_not_keepsFlags {opcode : X86.Opcode} (h : opcode.keepsFlags = false) (locations : List Location) :
    Effect.of opcode locations = .compare ∨ Effect.of opcode locations = .clear ∨
      Effect.of opcode locations = .update := by
  cases opcode with
  | cmp | test => exact .inl rfl
  | xor => exact .inr (effect_of_difference (.inl rfl) locations)
  | sub => exact .inr (effect_of_difference (.inr rfl) locations)
  | plain => exact .inr (.inr rfl)
  | _ => cases h

theorem not_mem_destinations_of_keepsFlags (h : d.opcode.keepsFlags = true) :
    ∀ l ∈ (Flow.of d next registers).destinations, flagsCell ∉ l.cells := by
  intro l hl
  have hoperand := @flags_not_mem_of_mem_resolve d next registers
  unfold Flow.of at hl
  dsimp only at hl
  generalize (resolve d next (some registers)).map (·.2) = locations at hl hoperand
  have hfirst (hl : l ∈ locations.take 1) := hoperand (List.mem_of_mem_take hl)
  cases ho : d.opcode with
  | mov | movzx | movsx | movsxd | lea | pop =>
    rw [ho] at hl
    exact hfirst hl
  | push =>
    rw [ho] at hl
    obtain rfl := List.mem_singleton.1 hl
    simp [flagsCell, Location.cells]
  | jmp | call | ret | nop | branch =>
    rw [ho] at hl
    cases hl
  | cmp | test | xor | sub | plain =>
    rw [ho] at h
    cases h

/-- All other operations write the flags and read nothing of them. -/
theorem flow_of_not_keepsFlags (h : d.opcode.keepsFlags = false) :
    flagsLocation ∈ (Flow.of d next registers).destinations ∧
      ∀ l ∈ (Flow.of d next registers).sources, flagsCell ∉ l.cells := by
  have hoperand := @flags_not_mem_of_mem_resolve d next registers
  unfold Flow.of
  dsimp only
  generalize (resolve d next (some registers)).map (·.2) = locations at hoperand
  obtain he | he | he := effect_of_not_keepsFlags h locations
  all_goals rw [he]
  · exact ⟨List.mem_singleton_self _, fun l hl => hoperand hl⟩
  · exact ⟨List.mem_append_right _ (List.mem_singleton_self _), nofun⟩
  · exact ⟨List.mem_append_right _ (List.mem_singleton_self _), fun l hl => hoperand hl⟩

/-- Beyond what it writes, an instruction renews the program counter alone. -/
theorem mem_of_mem_renewed {f : Flow} {branch symbolized : Bool} {l : Location} (h : l ∈ f.renewed branch symbolized) :
    l ∈ f.destinations ∨ l = .register .counter := by
  unfold Flow.renewed at h
  split at h
  · rcases List.mem_append.1 h with hl | hl
    · exact .inl hl
    · split at hl
      · exact .inr (List.mem_singleton.1 hl)
      · cases hl
  · cases h

/-- What a branch reads: the flags in any case, and the count register if it uses it. -/
theorem exists_source_of_branch_iff {b : X86.Branch} (hb : d.opcode = .branch b) (marked : Cell → Bool) :
    (∃ l ∈ (Flow.of d next registers).sources, ∃ c ∈ l.cells, marked c = true) ↔
      marked flagsCell = true ∨ b.usesCounter = true ∧ marked (.register .rcx) = true := by
  have hsources : (Flow.of d next registers).sources =
      flagsLocation :: if b.usesCounter then [.register .rcx] else [] := by
    unfold Flow.of
    rw [hb]
    rfl
  rw [hsources]
  cases b.usesCounter <;> simp [flagsLocation, flagsCell, Location.cells]

end Flow

namespace Shadow

/-! ## Keeping the marks of the flags -/

/-- The states agree on the flags, and on what is switched on. -/
structure SameFlags (s t : Shadow) : Prop where
  taintOn : t.taintOn = s.taintOn
  symbolicOn : t.symbolicOn = s.symbolicOn
  tainted : t.isTainted flagsCell = s.isTainted flagsCell
  symbol : t.symbols.get? flagsCell = s.symbols.get? flagsCell

variable {s t u : Shadow}

theorem SameFlags.refl (s : Shadow) : s.SameFlags s := ⟨rfl, rfl, rfl, rfl⟩

theorem SameFlags.trans (h₁ : s.SameFlags t) (h₂ : t.SameFlags u) : s.SameFlags u :=
  ⟨h₂.taintOn.trans h₁.taintOn, h₂.symbolicOn.trans h₁.symbolicOn, h₂.tainted.trans h₁.tainted,
    h₂.symbol.trans h₁.symbol⟩

theorem SameFlags.isSymbolic (h : s.SameFlags t) : t.isSymbolic flagsCell = s.isSymbolic flagsCell := by
  rw [Shadow.isSymbolic, Shadow.isSymbolic, h.symbol]

variable (s) {d : X86.Instruction} (i : Instruction) (registers : RegisterFile)

theorem taintOn_step (d : X86.Instruction) : (s.step d i registers).1.taintOn = s.taintOn := by rw [step_fst]

theorem symbolicOn_step (d : X86.Instruction) : (s.step d i registers).1.symbolicOn = s.symbolicOn := by rw [step_fst]

/-- One instruction that keeps the flags keeps their marks. -/
theorem sameFlags_step (h : d.opcode.keepsFlags = true) :
    s.SameFlags (s.step d (describe d i) registers).1 where
  taintOn := s.taintOn_step _ _ d
  symbolicOn := s.symbolicOn_step _ _ d
  tainted := (s.movesTaint_step registers d _).kept _ (not_mem_destinations_of_keepsFlags h)
  symbol := by
    refine (s.movesSymbols_step registers rfl).kept _ fun l hl => ?_
    have hwritten := @not_mem_destinations_of_keepsFlags d (describe d i).next registers h
    rcases List.mem_append.1 hl with hl | hl
    · exact hwritten l hl
    · rcases mem_of_mem_renewed hl with hl | rfl
      · exact hwritten l hl
      · simp [flagsCell, Location.cells]

/-- Every other instruction gives the flags its own taint. -/
theorem isTainted_flags_step (h : d.opcode.keepsFlags = false) (hon : s.taintOn = true) :
    (s.step d i registers).1.isTainted flagsCell = (s.step d i registers).2.tainted :=
  (s.movesTaint_step registers d i).written hon _ (flow_of_not_keepsFlags h).1 _ (List.mem_singleton_self _)

/-- It gives them an expression iff it is symbolic. -/
theorem isSymbolic_flags_step (h : d.opcode.keepsFlags = false) (hon : s.symbolicOn = true) :
    (s.step d i registers).1.isSymbolic flagsCell = (s.step d i registers).2.symbolized := by
  have hwritten : flagsCell ∈ (Flow.of d i.next registers).written :=
    List.mem_flatMap.2 ⟨_, (flow_of_not_keepsFlags h).1, List.mem_singleton_self _⟩
  rw [isSymbolic_step, symbolized_step, if_pos ⟨hon, hwritten⟩, hon]
  simp [flagsCell]

/-- An operation that does not keep the flags cleans them where they alone carry taint. -/
theorem not_sameFlags_step (h : d.opcode.keepsFlags = false) :
    ¬ (addSource {} flagsLocation "rflags").SameFlags ((addSource {} flagsLocation "rflags").step d i registers).1 := by
  intro hsame
  have hflags : (addSource {} flagsLocation "rflags").isTainted flagsCell = true := by
    rw [isTainted_addSource]
    rfl
  have htainted := hsame.tainted
  rw [isTainted_flags_step _ i registers h rfl, hflags, (movesTaint_step _ registers d i).tainted] at htainted
  obtain ⟨-, l, hl, c, hc, hread⟩ := htainted
  obtain rfl : c = flagsCell := by
    have hclean : isTainted {} c = false := by cases c <;> rfl
    rw [isTainted_addSource, hclean] at hread
    simpa [flagsLocation, flagsCell, Location.cells] using hread
  exact (flow_of_not_keepsFlags h).2 l hl hc

/-- A branch is tainted iff the flags are, or the count is and it uses it. -/
theorem tainted_step_of_branch {b : X86.Branch} (hb : d.opcode = .branch b) :
    (s.step d i registers).2.tainted = true ↔ s.taintOn = true ∧
      (s.isTainted flagsCell = true ∨ b.usesCounter = true ∧ s.isTainted (.register .rcx) = true) := by
  rw [tainted_step, Bool.and_eq_true, readsTaint_iff, exists_source_of_branch_iff hb]

/-- It is symbolic iff the flags are, or the count is and it uses it. -/
theorem symbolized_step_of_branch {b : X86.Branch} (hb : d.opcode = .branch b) :
    (s.step d i registers).2.symbolized = true ↔ s.symbolicOn = true ∧
      (s.isSymbolic flagsCell = true ∨ b.usesCounter = true ∧ s.isSymbolic (.register .rcx) = true) := by
  rw [symbolized_step, Bool.and_eq_true, readsSymbol_iff, exists_source_of_branch_iff hb]

/-! ## Sequences -/

/-- The record is no instruction that writes the flags. -/
def KeepsFlags (i : Instruction) : Prop :=
  ∀ d, X86.decodeWhole i.opcode = some d → d.opcode.keepsFlags = true

variable {i}

theorem sameFlags_feed (h : KeepsFlags i) : s.SameFlags (s.feed i registers).1 := by
  cases hd : X86.decodeWhole i.opcode with
  | none =>
    rw [feed_of_not_decodes s i registers hd]
    exact .refl s
  | some d =>
    rw [feed_of_decodes s i registers hd]
    exact s.sameFlags_step i registers (h d hd)

/-- Exactly the operations that keep the flags keep their marks in every state. -/
theorem keepsFlags_iff (hd : X86.decodeWhole i.opcode = some d) :
    d.opcode.keepsFlags = true ↔ ∀ (s : Shadow) (registers : RegisterFile), s.SameFlags (s.feed i registers).1 := by
  constructor
  · intro h s registers
    rw [feed_of_decodes s i registers hd]
    exact s.sameFlags_step i registers h
  · intro h
    by_contra hnot
    have hsame := h (addSource {} flagsLocation "rflags") fun _ => none
    rw [feed_of_decodes _ i _ hd] at hsame
    exact not_sameFlags_step _ _ (Bool.not_eq_true _ ▸ hnot) hsame

theorem sameFlags_feedAll : ∀ (inputs : List (Instruction × RegisterFile)) (s : Shadow),
    (∀ x ∈ inputs, KeepsFlags x.1) → s.SameFlags (s.feedAll inputs).1
  | [], s, _ => .refl s
  | (i, registers) :: inputs, s, h => by
    rw [List.forall_mem_cons] at h
    exact (s.sameFlags_feed registers h.1).trans (sameFlags_feedAll inputs _ h.2)

theorem feedAll_cons (i : Instruction) (inputs : List (Instruction × RegisterFile)) :
    s.feedAll ((i, registers) :: inputs) = (((s.feed i registers).1.feedAll inputs).1,
      (s.feed i registers).2 :: ((s.feed i registers).1.feedAll inputs).2) := rfl

/-- Feeding a sequence after another one is feeding both in a row. -/
theorem feedAll_append (xs ys : List (Instruction × RegisterFile)) : s.feedAll (xs ++ ys) =
    (((s.feedAll xs).1.feedAll ys).1, (s.feedAll xs).2 ++ ((s.feedAll xs).1.feedAll ys).2) := by
  induction xs generalizing s with
  | nil => rfl
  | cons x xs ih =>
    obtain ⟨i, registers⟩ := x
    rw [List.cons_append, feedAll_cons, feedAll_cons, ih]
    rfl

/-- There is one record for each that is fed. -/
theorem length_feedAll (xs : List (Instruction × RegisterFile)) : (s.feedAll xs).2.length = xs.length := by
  induction xs generalizing s with
  | nil => rfl
  | cons x xs ih =>
    obtain ⟨i, registers⟩ := x
    rw [feedAll_cons, List.length_cons, List.length_cons, ih]

/-- **A branch carries the marks of the last instruction that wrote the flags.** The flags keep their marks in every
state under exactly the operations that keep the flags, however many follow each other, and every other operation gives
them its own. So a branch is tainted, and symbolic, if the last instruction was that did not keep the flags, and, if it
does not use the count, only then. -/
theorem branch_after_kept {w : Instruction} {dw : X86.Instruction} {b : X86.Branch}
    (hw : X86.decodeWhole w.opcode = some dw) (hwrites : dw.opcode.keepsFlags = false)
    {inputs : List (Instruction × RegisterFile)} (hkeep : ∀ x ∈ inputs, KeepsFlags x.1)
    (hd : X86.decodeWhole i.opcode = some d) (hb : d.opcode = .branch b) (before after : RegisterFile) :
    (∀ j e, X86.decodeWhole j.opcode = some e → (e.opcode.keepsFlags = true ↔
      ∀ (s : Shadow) (registers : RegisterFile), s.SameFlags (s.feed j registers).1)) ∧
    ∃ kw between k, (s.feedAll ((w, before) :: inputs ++ [(i, after)])).2 = some kw :: between ++ [some k] ∧
      between.length = inputs.length ∧
      (s.taintOn = true → (kw.tainted = true → k.tainted = true) ∧
        (b.usesCounter = false → k.tainted = kw.tainted)) ∧
      (s.symbolicOn = true → (kw.symbolized = true → k.symbolized = true) ∧
        (b.usesCounter = false → k.symbolized = kw.symbolized)) := by
  refine ⟨fun j e he => keepsFlags_iff he, ?_⟩
  have hwritten := s.feed_of_decodes w before hw
  generalize hwrote : s.step dw (describe dw w) before = wrote at hwritten
  have hsame := sameFlags_feedAll inputs wrote.1 hkeep
  have hlast := (wrote.1.feedAll inputs).1.feed_of_decodes i after hd
  have hswitches : wrote.1.taintOn = s.taintOn ∧ wrote.1.symbolicOn = s.symbolicOn :=
    ⟨hwrote ▸ s.taintOn_step _ _ dw, hwrote ▸ s.symbolicOn_step _ _ dw⟩
  refine ⟨wrote.2, (wrote.1.feedAll inputs).2,
    ((wrote.1.feedAll inputs).1.step d (describe d i) after).2, ?_, length_feedAll _ _, fun hon => ?_, fun hon => ?_⟩
  · rw [List.cons_append, feedAll_cons, hwritten, feedAll_append, feedAll_cons, hlast]
    rfl
  · have hflags : wrote.1.isTainted flagsCell = wrote.2.tainted := hwrote ▸ s.isTainted_flags_step _ _ hwrites hon
    have hbranch := (wrote.1.feedAll inputs).1.tainted_step_of_branch (describe d i) after hb
    rw [hsame.taintOn, hswitches.1, hsame.tainted, hflags] at hbranch
    refine ⟨fun h => hbranch.2 ⟨hon, .inl h⟩, fun hcount => Bool.eq_iff_iff.2 ?_⟩
    simpa [hon, hcount] using hbranch
  · have hflags : wrote.1.isSymbolic flagsCell = wrote.2.symbolized :=
      hwrote ▸ s.isSymbolic_flags_step _ _ hwrites hon
    have hbranch := (wrote.1.feedAll inputs).1.symbolized_step_of_branch (describe d i) after hb
    rw [hsame.symbolicOn, hswitches.2, hsame.isSymbolic, hflags] at hbranch
    refine ⟨fun h => hbranch.2 ⟨hon, .inl h⟩, fun hcount => Bool.eq_iff_iff.2 ?_⟩
    simpa [hon, hcount] using hbranch

/-- A comparison with a tainted word, a move and a jump: the jump is tainted. -/
theorem branch_after_kept_move :
    let s : Shadow := addSource {} (.register (.general 7)) "rdi"
    let compare : Instruction := { address := 0x1000, thread := 1, opcode := [0x48, 0x39, 0xf7] }
    let move : Instruction := { address := 0x1003, thread := 1, opcode := [0x48, 0x89, 0xd8] }
    let jump : Instruction := { address := 0x1006, thread := 1, opcode := [0x74, 0x05] }
    ∃ kw between k, (s.feedAll [(compare, fun _ => none), (move, fun _ => none), (jump, fun _ => none)]).2 =
      some kw :: between ++ [some k] ∧ k.tainted = true := by
  intro s compare move jump
  have hcompare : X86.decodeWhole compare.opcode =
      some ⟨.cmp, [.register ⟨.qword, 7⟩, .register ⟨.qword, 6⟩], [], 3⟩ := by decide +kernel
  have hjump : X86.decodeWhole jump.opcode = some ⟨.branch (.on .zero), [.relative 5], [], 2⟩ := by decide +kernel
  have hmove : ∀ x ∈ ([(move, fun _ => none)] : List (Instruction × RegisterFile)), KeepsFlags x.1 := by
    intro x hx d hd
    obtain rfl := List.mem_singleton.1 hx
    have hdecoded : X86.decodeWhole move.opcode =
        some ⟨.mov, [.register ⟨.qword, 0⟩, .register ⟨.qword, 3⟩], [], 3⟩ := by decide +kernel
    rw [← Option.some.inj (hdecoded.symm.trans hd)]
    rfl
  obtain ⟨-, kw, between, k, hrun, -, htaint, -⟩ :=
    s.branch_after_kept hcompare rfl hmove hjump rfl (fun _ => none) (fun _ => none)
  refine ⟨kw, between, k, hrun, (htaint rfl).1 ?_⟩
  obtain rfl := Option.some.inj (List.cons.inj hrun).1
  decide +kernel

/-- A `not` of another register between a comparison with a tainted word and a jump hides the jump from both sides of
the analysis. -/
theorem exists_branch_hidden :
    let s : Shadow := addSource { symbolicOn := true } (.register (.general 7)) "rdi"
    let compare : Instruction := { address := 0x1000, thread := 1, opcode := [0x48, 0x39, 0xf7] }
    let complement : Instruction := { address := 0x1003, thread := 1, opcode := [0x48, 0xf7, 0xd3] }
    let jump : Instruction := { address := 0x1006, thread := 1, opcode := [0x74, 0x05] }
    let compared := (s.feed compare fun _ => none).1
    let records := (s.feedAll [(compare, fun _ => none), (complement, fun _ => none), (jump, fun _ => none)]).2
    (X86.decodeWhole complement.opcode).map (·.opcode) = some (.plain "not") ∧
      (X86.decodeWhole jump.opcode).map (·.opcode) = some (.branch (.on .zero)) ∧
      compared.isTainted flagsCell = true ∧ compared.isSymbolic flagsCell = true ∧
      (compared.feed complement fun _ => none).1.isTainted flagsCell = false ∧
      (compared.feed complement fun _ => none).1.isSymbolic flagsCell = false ∧
      records.map (Option.map (·.tainted)) = [some true, some false, some false] ∧
      records.map (Option.map (·.symbolized)) = [some true, some false, some false] := by
  decide +kernel

end Shadow

end TaintReplay
