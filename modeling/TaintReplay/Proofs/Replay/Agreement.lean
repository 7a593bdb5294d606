import TaintReplay.Proofs.Analysis.Agreement
import TaintReplay.Proofs.Replay.PathLog

/-!
# Tainted branches and symbolic branches

A run that starts with both sides of the analysis on keeps them on, and its analysis stays covered (`kept_covered`): a
tainted instruction is symbolic and a tainted branch logs its constraint (`symbolic_of_tainted`). The analysis stays
grounded too as long as no `lea` takes the expression of the program counter elsewhere (`kept_grounded`): until then a
symbolic instruction is tainted, and such a `lea` is the first that is not (`tainted_of_symbolic`).
-/

namespace TaintReplay

open Session Shadow

namespace Shadow

/-! ## At the start -/

theorem bothOn_fresh {o : Options} (ht : o.useTaint = true) (hs : o.useSymbols = true) : (fresh o).BothOn := ⟨ht, hs⟩

theorem covered_fresh (o : Options) : (fresh o).Covered := by
  intro c hc
  simp [fresh, isTainted] at hc

theorem grounded_fresh (o : Options) : (fresh o).Grounded := by
  intro c _ hc
  simp [fresh, isSymbolic] at hc

end Shadow

namespace Replay

/-- Both sides of the analysis are on, now and after every start of the process. -/
structure BothOn (r : Replay) : Prop where
  useTaint : r.options.useTaint = true
  useSymbols : r.options.useSymbols = true
  analysis : r.analysis.BothOn

namespace BothOn

variable {r t : Replay}

theorem start (h : r.BothOn) (ho : t.options = r.options) (ha : t.analysis = fresh r.options) : t.BothOn :=
  ⟨by rw [ho, h.useTaint], by rw [ho, h.useSymbols], by rw [ha]; exact bothOn_fresh h.useTaint h.useSymbols⟩

theorem prepare (h : r.BothOn) (hp : r.Prepares t) : t.BothOn :=
  ⟨by rw [hp.options, h.useTaint], by rw [hp.options, h.useSymbols], hp.analysis.bothOn h.analysis⟩

theorem step {c : Call} {d : X86.Instruction} {i : Instruction} (h : c.session.BothOn) (hdi : c.Examines d i) :
    c.run.1.BothOn :=
  ⟨by rw [hdi.run.2.options]; exact h.useTaint, by rw [hdi.run.2.options]; exact h.useSymbols,
    by rw [hdi.run.2.analysis]; exact h.analysis.step d i _⟩

theorem restarted {o : Options} (ht : o.useTaint = true) (hs : o.useSymbols = true) (debugger : Recorder) :
    (restarted o debugger).BothOn := ⟨ht, hs, bothOn_fresh ht hs⟩

end BothOn

/-! ## No tainted branch is missed -/

theorem kept_covered : Kept (fun _ => True) fun r => r.BothOn ∧ r.analysis.Covered where
  start ho ha _ h := ⟨h.1.start ho ha, ha ▸ covered_fresh _⟩
  prepare hp h := ⟨h.1.prepare hp, hp.analysis.covered h.1.analysis h.2⟩
  step {c d i} hdi _ h := by
    refine ⟨h.1.step hdi, ?_⟩
    rw [hdi.run.2.analysis]
    exact h.2.step h.1.analysis d i _

/-- No tainted branch is missed. In every state of a run that starts with both sides on, each tainted register and each
tainted byte holds an expression; each trace of a tainted instruction reports it as symbolic, and if it is a conditional
branch, logs its constraint. -/
theorem symbolic_of_tainted (r : Replay) (ht : r.options.useTaint = true) (hs : r.options.useSymbols = true)
    (steps : List Step) :
    let s := r.deliver .processStart
    (∀ cell, (s.after steps).analysis.isTainted cell = true → (s.after steps).analysis.isSymbolic cell = true) ∧
      ∀ c ∈ s.calls steps, ∀ symbolized constraint, c.run.2 = .traced true symbolized constraint →
        symbolized = true ∧ (c.fork?.isSome = true → ∃ k, constraint = some k ∧
          c.run.1.progress.constraints = c.session.progress.constraints ++ [k]) := by
  rw [deliver_processStart]
  intro s
  obtain ⟨hend, hcalls⟩ := kept_covered.after steps (fun _ _ => trivial) ⟨.restarted ht hs _, covered_fresh _⟩
  refine ⟨hend.2, fun c hc symbolized constraint ho => ?_⟩
  obtain ⟨d, i, hdi, htainted, hsymbolized, -⟩ := Call.examines_of_traced ho
  obtain ⟨hon, hcovered⟩ := hcalls c hc
  obtain rfl : symbolized = true := hsymbolized.trans (hcovered.symbolized hon.analysis htainted.symm)
  refine ⟨rfl, fun hf => ?_⟩
  obtain ⟨k, hk⟩ := Option.isSome_iff_exists.1 (c.isSome_constraint?.2 ⟨hf, true, constraint, ho⟩)
  refine ⟨k, (Call.constraint?_of_traced ho).symm.trans hk, ?_⟩
  rw [c.constraints_run, hk]
  rfl

/-- A jump that reads tainted flags logs its constraint. -/
theorem symbolic_of_tainted_jump :
    let r := start { useSymbols := true } { segments := [⟨0x1000, #[0x74, 0x00], by decide⟩] }
    let s := r.deliver .processStart
    let steps := [.registers [("rip", 0x1000)], .taintRegister "rflags"]
    (s.after steps).analysis.isSymbolic (.register .flags) = true ∧
      ∃ c ∈ s.calls steps, ∃ k, c.run.2 = .traced true true (some k) ∧
        c.run.1.progress.constraints = c.session.progress.constraints ++ [k] := by
  intro r s steps
  obtain ⟨hstate, hcalls⟩ := symbolic_of_tainted r rfl rfl steps
  obtain ⟨c, hc, ho, hf⟩ : ∃ c ∈ s.calls steps,
      c.run.2 = .traced true true (some ⟨1, 0x1000, 0x1002, 0x1002⟩) ∧ c.fork?.isSome = true := by decide +kernel
  obtain ⟨k, hk, hlog⟩ := (hcalls c hc true _ ho).2 hf
  exact ⟨hstate _ (by decide +kernel), c, hc, k, by rw [ho, hk], hlog⟩

/-! ## No expression comes from nowhere -/

/-- The trace looks at a `lea` with an address relative to the program counter, while the program counter holds the
expression of a symbolic branch and no taint. -/
def Call.Leaks (c : Call) : Prop := ∃ d i, c.Examines d i ∧ c.session.analysis.Leaks d

/-- A leak is a trace of a symbolic instruction that is not tainted. -/
theorem Call.Leaks.run {c : Call} (h : c.Leaks) (hon : c.session.BothOn) : c.run.2 = .traced false true none := by
  obtain ⟨d, i, hdi, hleak⟩ := h
  have hi := describes_of_examine hdi.examined
  obtain ⟨hsymbol, htaint⟩ := hleak.reads hi.decoded i.next c.session.debugger.register
  have hsymbolized : (c.stepped d i).2.symbolized = true := by
    rw [stepped, symbolized_step, hon.analysis.symbols, hsymbol]
    rfl
  have htainted : (c.stepped d i).2.tainted = false := by
    rw [stepped, tainted_step, htaint, Bool.and_false]
  have hbranch : i.branch = false := by
    rw [hi.branch, hleak.opcode]
    rfl
  rw [hdi.run.1, hsymbolized, htainted, constraint_eq_none (by simp [hbranch])]

theorem kept_grounded : Kept (fun c => ¬c.Leaks) fun r => r.BothOn ∧ r.analysis.Grounded where
  start ho ha _ h := ⟨h.1.start ho ha, ha ▸ grounded_fresh _⟩
  prepare hp h := ⟨h.1.prepare hp, hp.analysis.grounded h.1.analysis h.2⟩
  step {c d i} hdi hleak h := by
    refine ⟨h.1.step hdi, ?_⟩
    rw [hdi.run.2.analysis]
    have hd := (describes_of_examine hdi.examined).decoded
    exact h.2.step h.1.analysis hd (fun hl => hleak ⟨d, i, hdi, hl⟩) _

/-- Expressions come from sources only, as long as none leaks from the program counter: in a run that starts with both
sides on, each register but the program counter and each byte that holds an expression is tainted, and each trace of a
symbolic instruction reports it as tainted. Every leak reports a symbolic instruction that is not tainted. -/
theorem tainted_of_symbolic (r : Replay) (ht : r.options.useTaint = true) (hs : r.options.useSymbols = true)
    (steps : List Step) :
    let s := r.deliver .processStart
    ((∀ c ∈ s.calls steps, ¬c.Leaks) →
      (∀ cell, cell ≠ .register .counter → (s.after steps).analysis.isSymbolic cell = true →
        (s.after steps).analysis.isTainted cell = true) ∧
      ∀ c ∈ s.calls steps, ∀ tainted constraint, c.run.2 = .traced tainted true constraint → tainted = true) ∧
    ∀ c ∈ s.calls steps, c.Leaks → c.run.2 = .traced false true none := by
  rw [deliver_processStart]
  intro s
  have hon : s.BothOn := .restarted ht hs _
  refine ⟨fun hleaks => ?_, fun c hc hleak => ?_⟩
  · obtain ⟨hend, hcalls⟩ := kept_grounded.after steps hleaks ⟨hon, grounded_fresh _⟩
    refine ⟨hend.2, fun c hc tainted constraint ho => ?_⟩
    obtain ⟨d, i, hdi, htainted, hsymbolized, -⟩ := Call.examines_of_traced ho
    have hd := (describes_of_examine hdi.examined).decoded
    rw [htainted]
    exact (hcalls c hc).2.tainted (hcalls c hc).1.analysis hd (fun hl => hleaks c hc ⟨d, i, hdi, hl⟩) hsymbolized.symm
  · exact hleak.run ((kept_covered.after steps (fun _ _ => trivial) ⟨hon, covered_fresh _⟩).2 c hc).1

/-- Where nothing leaks, the jump that reads tainted flags is symbolic and tainted, and so are the flags. -/
theorem tainted_of_symbolic_jump :
    let r := start { useSymbols := true } { segments := [⟨0x1000, #[0x74, 0x00], by decide⟩] }
    let s := r.deliver .processStart
    let steps := [.registers [("rip", 0x1000)], .taintRegister "rflags"]
    (s.after steps).analysis.isTainted (.register .flags) = true ∧
      ∃ c ∈ s.calls steps, ∃ tainted constraint, c.run.2 = .traced tainted true constraint ∧ tainted = true := by
  intro r s steps
  obtain ⟨hgrounded, hleaks⟩ := tainted_of_symbolic r rfl rfl steps
  have houtcome : ∀ c ∈ s.calls steps, c.run.2 ≠ .traced false true none := by decide +kernel
  obtain ⟨hstate, hcalls⟩ := hgrounded fun c hc hleak => houtcome c hc (hleaks c hc hleak)
  obtain ⟨c, hc, ho⟩ : ∃ c ∈ s.calls steps, c.run.2 = .traced true true (some ⟨1, 0x1000, 0x1002, 0x1002⟩) := by
    decide +kernel
  exact ⟨hstate _ (by decide) (by decide +kernel), c, hc, true, _, ho, hcalls c hc true _ ho⟩

/-- After a symbolic jump, a `lea` relative to the program counter is symbolic but not tainted, and so is the register
that it writes. -/
theorem exists_symbolic_not_tainted :
    let r := start { useSymbols := true }
      { segments := [⟨0x1000, #[0x74, 0x00, 0x48, 0x8d, 0x05, 0x00, 0x00, 0x00, 0x00], by decide⟩] }
    let s := r.deliver .processStart
    let steps := [.registers [("rip", 0x1000)], .taintRegister "rflags", .event (.stepInto 0 0x1002)]
    (∃ c ∈ s.calls steps, c.run.2 = .traced false true none) ∧
      (s.after steps).analysis.isSymbolic (.register (.general 0)) = true ∧
      (s.after steps).analysis.isTainted (.register (.general 0)) = false := by
  decide +kernel

end Replay

end TaintReplay
