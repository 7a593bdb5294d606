import TaintReplay.Analysis.Flow

/-!
# The locations of a flow

An operand lives in a full register, in memory of a known address, or nowhere (`Located`). No operand lives in the
flags, so an instruction writes no cell twice (`apart_destinations`). A range of memory is in the flow only if it
belongs to an operand with a known address or is the slot of a push or a pop (`known_of_flow`).
-/

namespace TaintReplay

/-- The cells of a register and of a range of memory; other locations have none. -/
theorem Location.mem_cells_iff {l : Location} {c : Cell} : c ∈ l.cells ↔
    (∃ r, l = .register r ∧ c = .register r) ∨
      ∃ start size n, n < size ∧ l = .memory start size ∧ c = .byte (start + UInt64.ofNat n) := by
  cases l with
  | register r => simp [cells]
  | memory start size =>
    simp only [cells, List.mem_map, List.mem_range]
    constructor
    · rintro ⟨n, hn, rfl⟩
      exact .inr ⟨start, size, n, hn, rfl, rfl⟩
    · rintro (⟨_, hl, _⟩ | ⟨_, _, n, hn, hl, rfl⟩)
      · cases hl
      · cases hl
        exact ⟨n, hn, rfl⟩
  | constant => simp [cells]
  | unknown => simp [cells]

/-- The locations have no cell in common. -/
def Location.Apart (l m : Location) : Prop := ∀ c ∈ l.cells, c ∉ m.cells

theorem X86.Reg.full_ne_flags (r : X86.Reg) : r.full ≠ .flags := by
  obtain ⟨bank, index⟩ := r
  cases bank <;> simp [X86.Reg.full]

variable {d : X86.Instruction} {next : UInt64}

/-! ## Operands -/

/-- Where an operand of the instruction may live. -/
inductive Located (d : X86.Instruction) (next : UInt64) (registers : Option RegisterFile) : Location → Prop
  | register {r : X86.Reg} (mem : .register r ∈ d.operands) : Located d next registers (.register r.full)
  | memory {size : Option Nat} {segment : Option X86.Segment} {a : X86.Address} {start : UInt64}
      (mem : .memory size segment a ∈ d.operands) (known : registers.bind (a.effective next ·) = some start) :
      Located d next registers (.memory start d.memorySize)
  | constant : Located d next registers .constant
  | unknown : Located d next registers .unknown

theorem located_of_mem_resolve {registers : Option RegisterFile} {l : Location}
    (hl : l ∈ (resolve d next registers).map (·.2)) : Located d next registers l := by
  obtain ⟨_, hr, rfl⟩ := List.mem_map.1 hl
  obtain ⟨o, ho, rfl⟩ := List.mem_map.1 hr
  cases o with
  | register r => exact .register ho
  | masked => exact .unknown
  | immediate => exact .constant
  | relative => exact .constant
  | memory size segment a =>
    unfold resolveOperand
    dsimp only
    split
    · rename_i start hknown
      exact .memory ho hknown
    · exact .unknown

/-- The registers that operands live in are registers of operands. -/
theorem Located.of_register {registers : Option RegisterFile} {r : Register}
    (h : Located d next registers (.register r)) : ∃ operand, .register operand ∈ d.operands ∧ operand.full = r := by
  cases h with
  | register mem => exact ⟨_, mem, rfl⟩

/-- No operand lives in the flags. -/
theorem Located.apart_flags {registers : Option RegisterFile} {l : Location} (h : Located d next registers l) :
    l.Apart flagsLocation := by
  intro c hc hflags
  obtain rfl : c = .register .flags := by simpa [flagsLocation, Location.cells] using hflags
  rcases Location.mem_cells_iff.1 hc with ⟨r, rfl, hr⟩ | ⟨_, _, _, _, _, hbyte⟩
  · obtain ⟨operand, -, rfl⟩ := h.of_register
    exact operand.full_ne_flags (Cell.register.inj hr).symm
  · cases hbyte

/-! ## Flows -/

/-- A difference, and likewise an exclusive or, clears its first operand or updates it. -/
theorem effect_of_difference {opcode : X86.Opcode} (h : opcode = .xor ∨ opcode = .sub) (locations : List Location) :
    Effect.of opcode locations = .clear ∨ Effect.of opcode locations = .update := by
  rcases h with rfl | rfl
  all_goals
    unfold Effect.of
    dsimp only
    split
    · split
      · exact .inl rfl
      · exact .inr rfl
    · exact .inr rfl

/-- Only a `lea` takes addresses, only pushes and pops move the stack, and only branches decide. -/
theorem opcode_of_effect (opcode : X86.Opcode) (locations : List Location) :
    match Effect.of opcode locations with
    | .address => opcode = .lea
    | .push => opcode = .push
    | .pop => opcode = .pop
    | .branch b => opcode = .branch b
    | _ => True := by
  cases opcode with
  | xor => rcases effect_of_difference (.inl rfl) locations with h | h <;> rw [h] <;> trivial
  | sub => rcases effect_of_difference (.inr rfl) locations with h | h <;> rw [h] <;> trivial
  | _ => trivial

variable {registers : RegisterFile}

/-- An instruction writes no cell twice. -/
theorem apart_destinations (d : X86.Instruction) (next : UInt64) (registers : RegisterFile) :
    (Flow.of d next registers).destinations.Pairwise Location.Apart := by
  have hflags : ∀ l ∈ (resolve d next (some registers)).map (·.2), l.Apart flagsLocation :=
    fun l hl => (located_of_mem_resolve hl).apart_flags
  unfold Flow.of
  dsimp only
  generalize (resolve d next (some registers)).map (·.2) = locations at hflags
  have hfirst : (locations.take 1).Pairwise Location.Apart := by
    cases locations <;> simp
  have hboth : (locations.take 1 ++ [flagsLocation]).Pairwise Location.Apart := by
    refine List.pairwise_append.2 ⟨hfirst, List.pairwise_singleton _ _, fun l hl m hm => ?_⟩
    rw [List.mem_singleton.1 hm]
    exact hflags l (List.mem_of_mem_take hl)
  cases Effect.of d.opcode locations with
  | assign | address | pop => exact hfirst
  | update | clear => exact hboth
  | compare | push => exact List.pairwise_singleton _ _
  | branch | untracked => exact .nil

/-- A conditional branch writes nothing. -/
theorem destinations_of_branch {d : X86.Instruction} (h : d.opcode.branch?.isSome = true) (next : UInt64)
    (registers : RegisterFile) : (Flow.of d next registers).destinations = [] := by
  cases ho : d.opcode with
  | branch b =>
    unfold Flow.of
    rw [ho]
    rfl
  | _ =>
    rw [ho] at h
    cases h

/-- The range belongs to an operand whose address is known, or is the stack slot that a push writes or a pop reads. -/
inductive KnownRange (d : X86.Instruction) (next : UInt64) (registers : RegisterFile) : UInt64 → Nat → Prop
  | operand {size : Option Nat} {segment : Option X86.Segment} {a : X86.Address} {start : UInt64}
      (mem : .memory size segment a ∈ d.operands) (known : a.effective next registers = some start) :
      KnownRange d next registers start d.memorySize
  | pushed (opcode : d.opcode = .push) :
      KnownRange d next registers ((registers .rsp).getD 0 - UInt64.ofNat stackSlot) stackSlot
  | popped (opcode : d.opcode = .pop) : KnownRange d next registers ((registers .rsp).getD 0) stackSlot

/-- Memory of which the address is not known is neither read nor written. -/
theorem known_of_flow {start : UInt64} {size : Nat} (h : .memory start size ∈ (Flow.of d next registers).sources ∨
    .memory start size ∈ (Flow.of d next registers).destinations) : KnownRange d next registers start size := by
  have hoperand (hl : .memory start size ∈ (resolve d next (some registers)).map (·.2)) :
      KnownRange d next registers start size := by
    cases located_of_mem_resolve hl with
    | memory mem known => exact .operand mem known
  have haddresses : .memory start size ∉ addressRegisters d := by
    intro hl
    obtain ⟨o, -, ho⟩ := List.mem_flatMap.1 hl
    cases o with
    | memory => simp at ho
    | _ => cases ho
  have hopcode := opcode_of_effect d.opcode ((resolve d next (some registers)).map (·.2))
  unfold Flow.of at h
  dsimp only at h
  generalize (resolve d next (some registers)).map (·.2) = locations at h hoperand hopcode
  have htake (hl : .memory start size ∈ locations.take 1) := hoperand (List.mem_of_mem_take hl)
  have hupdate (hl : .memory start size ∈ locations.take 1 ++ [flagsLocation]) :
      KnownRange d next registers start size := by
    rcases List.mem_append.1 hl with hl | hl
    · exact htake hl
    · simp [flagsLocation] at hl
  cases he : Effect.of d.opcode locations with
  | assign =>
    rw [he] at h
    exact h.elim (fun hl => hoperand (List.mem_of_mem_drop hl)) htake
  | address =>
    rw [he] at h
    exact h.elim (fun hl => absurd hl haddresses) htake
  | update =>
    rw [he] at h
    exact h.elim hoperand hupdate
  | compare =>
    rw [he] at h
    exact h.elim hoperand fun hl => by simp [Effect.flow, flagsLocation] at hl
  | clear =>
    rw [he] at h
    exact h.elim nofun hupdate
  | push =>
    rw [he] at h hopcode
    rcases h with hl | hl
    · exact htake hl
    · obtain ⟨rfl, rfl⟩ := Location.memory.inj (List.mem_singleton.1 hl)
      exact .pushed hopcode
  | pop =>
    rw [he] at h hopcode
    rcases h with hl | hl
    · obtain ⟨rfl, rfl⟩ := Location.memory.inj (List.mem_singleton.1 hl)
      exact .popped hopcode
    · exact htake hl
  | branch b =>
    rw [he] at h
    rcases h with hl | hl
    · cases hb : b.usesCounter <;> simp [Effect.flow, flagsLocation, hb] at hl
    · cases hl
  | untracked =>
    rw [he] at h
    exact h.elim nofun nofun

end TaintReplay
