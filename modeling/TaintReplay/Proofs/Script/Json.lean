import TaintReplay.Proofs.Options.Json
import TaintReplay.Proofs.Script.Step
import TaintReplay.Script.Json

/-!
# Scripts written as objects

A script is written as an object with its steps, its options if it has any, and any other members, in any order
(`Script.Written`). From every text of such an object the script is read (`ofBytes_of_hasText`).
-/

namespace TaintReplay.Script

open Json

/-- How options stand in a script: `null` if there are none, and else an object in which only defaults are left out. -/
inductive WrittenOptions : Option Options → Value → Prop
  | none : WrittenOptions none .null
  | some {o : Options} {members : List (String × Value)} (h : Options.Written o members)
      (hall : Options.overridden (members.map Prod.fst) o = o) : WrittenOptions (some o) (.object members)

/-- The names of the members of a script. -/
def names : List String := ["options", "steps"]

/-- The members are the steps and the options of the script, and others of other names. -/
structure Written (s : Script) (members : List (String × Value)) : Prop where
  steps : ∀ m ∈ members, m.1 = "steps" → ∃ items, m.2 = .array items ∧ List.Forall₂ Step.Written s.steps items
  options : ∀ m ∈ members, m.1 = "options" → WrittenOptions s.options m.2
  once : (Value.keysAmong names members).Nodup
  hasSteps : "steps" ∈ members.map Prod.fst
  hasOptions : s.options ≠ none → "options" ∈ members.map Prod.fst

variable {s t : Script} {members : List (String × Value)}

/-! ## One member -/

theorem exists_reads_steps {steps : List Step} {items : List Value} (h : List.Forall₂ Step.Written steps items)
    (hsteps : ∀ step ∈ steps, step.Proper) :
    ∃ read, List.Forall₂ Step.Same read steps ∧ (stepsReader 126).Reads (Value.array items).lexemes read := by
  have hdepth : Reader.maxDepth = 124 + 3 := rfl
  have hitems : ∃ read, List.Forall₂ Step.Same read steps ∧
      List.Forall₂ (fun item t => (Step.reader 125).Reads item.lexemes t) items read := by
    induction h with
    | nil => exact ⟨[], .nil, .nil⟩
    | @cons step item steps items hstep _ ih =>
      obtain ⟨read, hsame, hreads⟩ := ih fun step hmem => hsteps step (List.mem_cons_of_mem _ hmem)
      obtain ⟨t, hstepSame, hstepReads⟩ := hstep.exists_reads (hsteps step List.mem_cons_self) hdepth
      exact ⟨t :: read, .cons hstepSame hsame, .cons hstepReads hreads⟩
  obtain ⟨read, hsame, hreads⟩ := hitems
  refine ⟨read, hsame, ?_⟩
  intro rest
  rw [Value.lexemes, Value.itemLexemes_eq_map, List.cons_append, List.append_assoc]
  refine Reader.takes_list ?_
  rw [List.forall₂_map_left_iff]
  exact hreads.imp fun item t ht => ⟨item.opening_lexemes, ht⟩

theorem WrittenOptions.reads {options : Option Options} {v : Value} (h : WrittenOptions options v) :
    (optionsReader 126).Reads v.lexemes options := by
  intro rest
  cases h with
  | none => exact Reader.takes_optional_null
  | @some o members h hall =>
    have hreads := Options.reads_reader h 125 rest
    rw [hall, Value.lexemes, List.cons_append] at hreads
    rw [Value.lexemes, List.cons_append]
    exact Reader.takes_optional_some hreads rfl (by simp)

/-! ## All members -/

/-- What is known behind the members with these names. -/
def after (s : Script) (seen : List String) : Draft where
  options := if "options" ∈ seen then some s.options else none
  steps := if "steps" ∈ seen then some s.steps else none

theorem reads_options {v : Value} {seen : List String} (h : WrittenOptions s.options v) (hseen : "options" ∉ seen) :
    (readMember 126 "options" (after s seen)).Reads (.mark .colon :: v.lexemes) (after s ("options" :: seen)) := by
  have hafter : after s ("options" :: seen) = { after s seen with options := some s.options } := by
    simp [after]
  unfold readMember
  rw [if_pos rfl, hafter, after, if_neg hseen]
  exact h.reads.member fun options => { after s seen with options := some options }

theorem reads_steps {v : Value} {seen : List String} (h : (stepsReader 126).Reads v.lexemes s.steps)
    (hseen : "steps" ∉ seen) :
    (readMember 126 "steps" (after s seen)).Reads (.mark .colon :: v.lexemes) (after s ("steps" :: seen)) := by
  have hafter : after s ("steps" :: seen) = { after s seen with steps := some s.steps } := by
    simp [after]
  unfold readMember
  rw [if_neg (by decide), if_pos rfl, hafter, after, if_neg hseen]
  exact h.member fun steps => { after s seen with steps := some steps }

theorem reads_other {key : String} (h : key ∉ names) (v : Value) (d : Draft) :
    (readMember 126 key d).Reads (.mark .colon :: v.lexemes) d := by
  simp only [names, List.mem_cons, List.not_mem_nil, or_false, not_or] at h
  unfold readMember
  rw [if_neg h.1, if_neg h.2]
  exact (Reader.reads_skip v).member fun _ => d

/-- The members are read with these steps, if they are what stands there. -/
theorem Written.takes_members (h : s.Written members) {read : List Step}
    (hread : ∀ m ∈ members, m.1 = "steps" → (stepsReader 126).Reads m.2.lexemes read) {rest : List Lexeme} :
    (membersReader 126).Takes (separated (members.map Value.ofMember) ++ .mark .closeObject :: rest)
      { s with steps := read } (.mark .closeObject :: rest) := by
  have hfold : (Reader.foldMembers (readMember 126) (after { s with steps := read } [])).Takes
      (separated (members.map Value.ofMember) ++ .mark .closeObject :: rest)
      (after { s with steps := read } (Value.keysAmong names members).reverse) (.mark .closeObject :: rest) := by
    refine Reader.takes_named ?_ (fun m _ hname => reads_other hname m.2) h.once
    rintro ⟨key, v⟩ hm hname seen hseen
    rcases List.mem_pair.1 hname with rfl | rfl
    · exact reads_options (h.options _ hm rfl) hseen
    · exact reads_steps (hread _ hm rfl) hseen
  have hsteps : (after { s with steps := read } (Value.keysAmong names members).reverse).steps = some read := by
    refine if_pos ?_
    rw [List.mem_reverse, Value.mem_keysAmong (by decide)]
    exact h.hasSteps
  have hoptions : (after { s with steps := read } (Value.keysAmong names members).reverse).options.getD none =
      s.options := by
    unfold after
    dsimp only
    split
    · rfl
    · rename_i hname
      rw [List.mem_reverse, Value.mem_keysAmong (by decide)] at hname
      exact (not_not.1 fun hne => hname (h.hasOptions hne)).symm
  refine hfold.bind ?_
  rw [hsteps, hoptions]
  exact Reader.takes_pure _ _

/-- A script is read from every text of an object that it is written as. The values of registers are listed in the order
of the text. -/
theorem ofBytes_of_hasText {bytes : List UInt8} (h : s.Written members) (hproper : ∀ step ∈ s.steps, step.Proper)
    (hbytes : (Value.object members).HasText bytes) :
    ∃ t, ofBytes bytes = .ok t ∧ t.options = s.options ∧ List.Forall₂ Step.Same t.steps s.steps := by
  obtain ⟨m, hm, hname⟩ := List.mem_map.1 h.hasSteps
  obtain ⟨items, hitems, hwritten⟩ := h.steps m hm hname
  obtain ⟨read, hsame, hreads⟩ := exists_reads_steps hwritten hproper
  have hread : ∀ w ∈ members, w.1 = "steps" → (stepsReader 126).Reads w.2.lexemes read := by
    intro w hw hkey
    have hmw : m = w := Value.eq_of_key_eq h.once hm hw (hname.trans hkey.symm) (by rw [hname]; decide)
    rw [← hmw, hitems]
    exact hreads
  have htakes : reader.Takes (Value.object members).lexemes { s with steps := read } [] := by
    rw [Value.lexemes, Value.memberLexemes_eq_map]
    exact Reader.takes_structured (h.takes_members hread)
  exact ⟨_, htakes.run hbytes, rfl, hsame⟩

/-- The kind stands behind the values, which are in another order, and a step has no thread. -/
theorem ofBytes_of_hasText_reordered : ∃ t, ofBytes (bytesOf (Value.object [("comment", .array [.null]),
      ("steps", .array [
        .object [("values", .object [("rbx", .word 2), ("rax", .word 1)]), ("kind", .text "registers")],
        .object [("pc", .word 4096), ("note", .bool true), ("kind", .text "step_into")]])]).pretty) = .ok t ∧
    t.options = none ∧
    List.Forall₂ Step.Same t.steps [.registers [("rax", 1), ("rbx", 2)], .event (.stepInto 0 4096)] := by
  have hregisters : Step.Written (.registers [("rax", 1), ("rbx", 2)])
      (.object [("values", .object [("rbx", .word 2), ("rax", .word 1)]), ("kind", .text "registers")]) := by
    refine ⟨[("values", .object [("rbx", .word 2), ("rax", .word 1)])], [], rfl, ?_, by decide, by decide, ?_⟩
    · intro m hm f hf _
      obtain rfl := List.mem_singleton.1 hm
      obtain rfl := List.mem_singleton.1 hf
      exact ⟨.registers [("rbx", 2), ("rax", 1)], .registers (by decide), rfl⟩
    · intro m hm hname
      obtain rfl := List.mem_singleton.1 hm
      exact absurd (by decide) hname
  have hstep : Step.Written (.event (.stepInto 0 4096))
      (.object [("pc", .word 4096), ("note", .bool true), ("kind", .text "step_into")]) := by
    refine ⟨[("pc", .word 4096), ("note", .bool true)], [], rfl, ?_, by decide, by decide, ?_⟩
    · intro m hm f hf hkey
      refine ⟨_, .refl _, ?_⟩
      rcases List.mem_pair.1 hm with rfl | rfl <;> rcases List.mem_pair.1 hf with rfl | rfl
      · exact absurd hkey (by decide)
      · rfl
      · exact absurd hkey (by decide)
      · exact absurd hkey (by decide)
    · intro m hm hname
      rcases List.mem_pair.1 hm with rfl | rfl
      · exact absurd (by decide) hname
      · exact ⟨by decide, Value.plain_bool true, by decide⟩
  have hwritten : Written { steps := [.registers [("rax", 1), ("rbx", 2)], .event (.stepInto 0 4096)] }
      [("comment", .array [.null]), ("steps", .array [
        .object [("values", .object [("rbx", .word 2), ("rax", .word 1)]), ("kind", .text "registers")],
        .object [("pc", .word 4096), ("note", .bool true), ("kind", .text "step_into")]])] := by
    refine ⟨?_, ?_, by decide, by decide, by decide⟩
    · intro m hm hname
      rcases List.mem_pair.1 hm with rfl | rfl
      · exact absurd hname (by decide)
      · exact ⟨_, rfl, .cons hregisters (.cons hstep .nil)⟩
    · intro m hm hname
      rcases List.mem_pair.1 hm with rfl | rfl
      · exact absurd hname (by decide)
      · exact absurd hname (by decide)
  refine ofBytes_of_hasText hwritten ?_ (Value.hasText_pretty ?_)
  · intro step hstep values hvalues
    rcases List.mem_pair.1 hstep with rfl | rfl
    · obtain rfl := Step.registers.inj hvalues
      decide
    · cases hvalues
  · simp [Value.OfWords, Value.lexemes, Value.itemLexemes, Value.memberLexemes, separated, continued, Lexeme.IsWord,
      Value.word, Value.natural]

end TaintReplay.Script
