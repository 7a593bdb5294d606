import TaintReplay.Proofs.Replay.Call

/-!
# The log of path constraints

A `Fork` is what the bytes and the registers say about a conditional branch: its text, where it leads, the address
behind it, and whether its condition holds. `Logged` is the invariant of the log: the expressions of its constraints
increase, and each constraint is the decision at a fork that was traced, the text of which is still in its expression.
It is kept by every step of a replay (`kept_logged`), so it holds in all of a run (`constraints_after_start`). The log
is the constraints of the traces since the last start of the process (`constraints_after`).
-/

namespace TaintReplay

open Session Shadow

namespace Replay

/-! ## Forks -/

/-- A conditional branch as its bytes and the registers have it. -/
structure Fork where
  text : String
  /-- The address behind the branch. -/
  next : UInt64
  target : UInt64
  /-- Does the condition hold? -/
  holds : Bool
  deriving DecidableEq, Repr

namespace Call

/-- The conditional branch that a trace looks at. The target is relative to the address behind the branch. -/
def fork? (c : Call) : Option Fork := do
  let (d, _) ← c.session.examine c.pc c.thread
  match d.opcode, d.operands with
  | .branch b, [.relative distance] =>
    let next := c.pc + UInt64.ofNat d.length
    return {
      text := d.text
      next
      target := next + UInt64.ofInt distance
      holds := b.isTaken c.session.debugger.register }
  | _, _ => none

variable {c : Call} {d : X86.Instruction} {i : Instruction}

/-- An examined branch is a fork, and its record says the same about it. -/
theorem Examines.fork?_eq_some (h : c.Examines d i) (hb : i.branch = true) : ∃ f, c.fork? = some f ∧ i.address = c.pc ∧
    i.text = f.text ∧ i.next = f.next ∧ i.target = some f.target ∧ (c.stepped d i).2.taken = f.holds := by
  have hi := describes_of_examine h.examined
  obtain ⟨b, hd⟩ : ∃ b, d.opcode = .branch b := by
    have hs := hi.branch ▸ hb
    cases hd : d.opcode with
    | branch b => exact ⟨b, rfl⟩
    | _ => simp [hd, X86.Opcode.branch?] at hs
  obtain ⟨distance, ho⟩ := X86.operands_of_branch hi.decoded hd
  have hfork : c.fork? = some {
      text := d.text
      next := c.pc + UInt64.ofNat d.length
      target := c.pc + UInt64.ofNat d.length + UInt64.ofInt distance
      holds := b.isTaken c.session.debugger.register } := by
    simp [fork?, h.examined, hd, ho]
  refine ⟨_, hfork, hi.address, hi.text, hi.next, ?_, ?_⟩
  · rw [hi.target b distance hd ho, hi.next]
  · rw [stepped, step_snd, if_pos hb, hd]
    rfl

/-- Only an examined branch is a fork. -/
theorem Examines.fork?_eq_none (h : c.Examines d i) (hb : i.branch = false) : c.fork? = none := by
  have hi := describes_of_examine h.examined
  have hs := hi.branch ▸ hb
  cases hd : d.opcode with
  | branch b => simp [hd, X86.Opcode.branch?] at hs
  | _ => simp [fork?, h.examined, hd]

theorem Examines.isSome_fork? (h : c.Examines d i) : c.fork?.isSome = i.branch := by
  cases hb : i.branch with
  | true =>
    obtain ⟨f, hf, _⟩ := h.fork?_eq_some hb
    rw [hf]
    rfl
  | false =>
    rw [h.fork?_eq_none hb]
    rfl

/-- The constraint is the decision at a fork that the trace took: it names the way that was taken first. -/
structure Decides (c : Call) (f : Fork) (k : PathConstraint) : Prop where
  fork : c.fork? = some f
  outcome : ∃ tainted, c.run.2 = .traced tainted true (some k)
  source : k.source = c.pc
  ways : (k.taken, k.notTaken) = if f.holds then (f.target, f.next) else (f.next, f.target)

/-- The way taken is the target iff the condition held, unless both ways are one. -/
theorem Decides.taken_eq_target_iff {f : Fork} {k : PathConstraint} (h : c.Decides f k) :
    k.taken = f.target ↔ f.holds = true ∨ f.target = f.next := by
  have hways := h.ways
  cases hf : f.holds with
  | true =>
    rw [hf] at hways
    simpa using (Prod.mk.inj hways).1
  | false =>
    rw [hf] at hways
    rw [(Prod.mk.inj hways).1]
    simp [eq_comm]

/-- A symbolic branch gives a constraint on a new expression of the program counter, which tells the two ways. -/
theorem Examines.exists_decides (h : c.Examines d i) (hb : i.branch = true)
    (hs : (c.stepped d i).2.symbolized = true) : ∃ f k,
      reportedConstraint (c.stepped d i).1 (c.stepped d i).2 = some k ∧ c.Decides f k ∧
      c.session.analysis.expressions.size ≤ k.symbol ∧
      (c.stepped d i).1.symbols.get? (.register .counter) = some k.symbol ∧
      (c.stepped d i).1.expressions[k.symbol]? =
        some (numbered k.symbol (decisionText f.text f.target f.next)) := by
  obtain ⟨f, hf, haddress, htext, hnext, htarget, htaken⟩ := h.fork?_eq_some hb
  obtain ⟨n, hsize, hcounter, hexpression⟩ := c.session.analysis.counter_step d i _ hb hs
  rw [htarget, htext, hnext, Option.getD_some] at hexpression
  have hbranch : (c.stepped d i).2.branch = true := (branch_step ..).trans hb
  have hsource : (c.stepped d i).2.address = c.pc := (address_step ..).trans haddress
  have hsuccessors : (c.stepped d i).2.successors =
      some (if f.holds then (f.target, f.next) else (f.next, f.target)) := by
    have ht : (c.stepped d i).2.target = some f.target := (target_step ..).trans htarget
    have hn : (c.stepped d i).2.next = f.next := (next_step ..).trans hnext
    rw [Instruction.successors, ht, hn, htaken]
    rfl
  have hpath : Analyzer.pathSymbol (c.stepped d i).1 = some n := hcounter
  obtain ⟨ways, hways⟩ : ∃ ways, ways = if f.holds then (f.target, f.next) else (f.next, f.target) := ⟨_, rfl⟩
  have hconstraint : reportedConstraint (c.stepped d i).1 (c.stepped d i).2 = some ⟨n, c.pc, ways.1, ways.2⟩ := by
    rw [reportedConstraint, hbranch, hs, if_pos (by rfl), constraintOf, hsuccessors, hpath, hsource, ← hways]
    rfl
  refine ⟨f, _, hconstraint, ⟨hf, ⟨(c.stepped d i).2.tainted, ?_⟩, rfl, hways⟩, hsize, hcounter, hexpression⟩
  rw [h.run.1, hs, hconstraint]

/-- Nothing but a symbolic branch gives a constraint. -/
theorem constraint_eq_none (hn : ¬(i.branch = true ∧ (c.stepped d i).2.symbolized = true)) :
    reportedConstraint (c.stepped d i).1 (c.stepped d i).2 = none := by
  have hbranch : (c.stepped d i).2.branch = i.branch := branch_step ..
  rw [reportedConstraint, hbranch, if_neg (by simpa using hn)]

/-- The constraint that a trace gives. -/
def constraint? (c : Call) : Option PathConstraint :=
  match c.run.2 with
  | .traced _ _ constraint => constraint
  | _ => none

theorem constraint?_of_traced {tainted symbolized : Bool} {constraint : Option PathConstraint}
    (h : c.run.2 = .traced tainted symbolized constraint) : c.constraint? = constraint := by
  rw [constraint?, h]

theorem Examines.constraint?_eq (h : c.Examines d i) :
    c.constraint? = reportedConstraint (c.stepped d i).1 (c.stepped d i).2 :=
  constraint?_of_traced h.run.1

theorem constraint?_of_unexamined (h : ∀ d i, ¬c.Examines d i) : c.constraint? = none := by
  unfold constraint?
  cases ho : c.run.2 with
  | traced tainted symbolized constraint =>
    obtain ⟨d, i, hdi, _⟩ := examines_of_traced ho
    exact absurd hdi (h d i)
  | _ => rfl

/-- A trace logs the constraint that it gives, and nothing else. -/
theorem constraints_run (c : Call) :
    c.run.1.progress.constraints = c.session.progress.constraints ++ c.constraint?.toList := by
  rcases c.examines_or_unexamined with ⟨d, i, h⟩ | h
  · rw [h.constraint?_eq]
    exact h.run.2.constraints
  · rw [(unexamined h).2.constraints, constraint?_of_unexamined h]
    exact (List.append_nil _).symm

/-- A trace keeps all expressions. -/
theorem extends_run (c : Call) : c.session.analysis.Extends c.run.1.analysis := by
  rcases c.examines_or_unexamined with ⟨d, i, h⟩ | h
  · rw [h.run.2.analysis]
    exact c.session.analysis.expressions_step d i _
  · rw [(unexamined h).2.analysis]
    exact .refl _

/-- A constraint comes from a symbolic branch. -/
theorem examines_of_constraint? {k : PathConstraint} (hk : c.constraint? = some k) :
    ∃ d i, c.Examines d i ∧ i.branch = true ∧ (c.stepped d i).2.symbolized = true := by
  rcases c.examines_or_unexamined with ⟨d, i, h⟩ | h
  · by_cases hn : i.branch = true ∧ (c.stepped d i).2.symbolized = true
    · exact ⟨d, i, h, hn⟩
    · rw [h.constraint?_eq, constraint_eq_none hn] at hk
      cases hk
  · rw [constraint?_of_unexamined h] at hk
    cases hk

/-- A constraint is the decision at the fork that the trace looks at, on an expression that tells the two ways. -/
theorem exists_decides {k : PathConstraint} (hk : c.constraint? = some k) : ∃ f, c.Decides f k ∧
    c.session.analysis.expressions.size ≤ k.symbol ∧
    c.run.1.analysis.symbols.get? (.register .counter) = some k.symbol ∧
    c.run.1.analysis.expressions[k.symbol]? = some (numbered k.symbol (decisionText f.text f.target f.next)) := by
  obtain ⟨d, i, h, hb, hs⟩ := examines_of_constraint? hk
  obtain ⟨f, k', hk', hrest⟩ := h.exists_decides hb hs
  rw [h.constraint?_eq, hk'] at hk
  obtain rfl := Option.some.inj hk
  have hanalysis : c.run.1.analysis = (c.stepped d i).1 := h.run.2.analysis
  rw [hanalysis]
  exact ⟨f, hrest⟩

/-- A trace gives a constraint iff it traces a symbolic branch. -/
theorem isSome_constraint? (c : Call) : c.constraint?.isSome = true ↔
    c.fork?.isSome = true ∧ ∃ tainted constraint, c.run.2 = .traced tainted true constraint := by
  constructor
  · intro hc
    obtain ⟨k, hk⟩ := Option.isSome_iff_exists.1 hc
    obtain ⟨f, hdecides, _⟩ := exists_decides hk
    obtain ⟨tainted, ho⟩ := hdecides.outcome
    exact ⟨by rw [hdecides.fork]; rfl, tainted, some k, ho⟩
  · rintro ⟨hf, tainted, constraint, ho⟩
    obtain ⟨d, i, h, -, hs, -⟩ := examines_of_traced ho
    obtain ⟨f, k, hk, _⟩ := h.exists_decides (by rw [← h.isSome_fork?, hf]) hs.symm
    rw [h.constraint?_eq, hk]
    rfl

end Call

/-! ## The log -/

/-- The expressions of the log increase, and every constraint of it is the decision at a fork that one of the given
traces took, the text of which is still the text of its expression. -/
structure Logged (C : Call → Prop) (r : Replay) : Prop where
  increasing : r.progress.constraints.Pairwise fun j k => j.symbol < k.symbol
  decided : ∀ k ∈ r.progress.constraints, ∃ c f, C c ∧ c.Decides f k ∧
    r.analysis.expressions[k.symbol]? = some (numbered k.symbol (decisionText f.text f.target f.next))

namespace Logged

variable {C : Call → Prop} {r t : Replay}

theorem of_nil (h : r.progress.constraints = []) : Logged C r := ⟨by simp [h], by simp [h]⟩

/-- The expressions of the log are there. -/
theorem symbol_lt (h : Logged C r) {k : PathConstraint} (hk : k ∈ r.progress.constraints) :
    k.symbol < r.analysis.expressions.size := by
  obtain ⟨c, f, _, _, hexpression⟩ := h.decided k hk
  exact (Array.getElem?_eq_some_iff.1 hexpression).1

/-- More expressions do no harm to the log. -/
theorem extend (h : Logged C r) (hc : t.progress.constraints = r.progress.constraints)
    (he : r.analysis.Extends t.analysis) : Logged C t := by
  refine ⟨by rw [hc]; exact h.increasing, fun k hk => ?_⟩
  rw [hc] at hk
  obtain ⟨c, f, hC, hdecides, hexpression⟩ := h.decided k hk
  exact ⟨c, f, hC, hdecides, (he.getElem? (h.symbol_lt hk)).trans hexpression⟩

end Logged

theorem kept_logged (C : Call → Prop) : Kept C (Logged C) where
  start _ _ hconstraints _ := .of_nil hconstraints
  prepare hs h := h.extend hs.constraints hs.analysis.extends
  step {c _ _} _ hC hl := by
    cases hk : c.constraint? with
    | none =>
      refine hl.extend ?_ c.extends_run
      rw [c.constraints_run, hk]
      exact List.append_nil _
    | some k =>
      obtain ⟨f, hdecides, hsize, -, hexpression⟩ := Call.exists_decides hk
      have hlog : c.run.1.progress.constraints = c.session.progress.constraints ++ [k] := by
        rw [c.constraints_run, hk]
        rfl
      refine ⟨?_, ?_⟩
      · rw [hlog, List.pairwise_append]
        refine ⟨hl.increasing, List.pairwise_singleton _ _, fun j hj k' hk' => ?_⟩
        rw [List.mem_singleton.1 hk']
        have hj := hl.symbol_lt hj
        omega
      · intro j hj
        rw [hlog, List.mem_append, List.mem_singleton] at hj
        rcases hj with hj | rfl
        · obtain ⟨c', f', hC', hdecides', hexpression'⟩ := hl.decided j hj
          exact ⟨c', f', hC', hdecides', (c.extends_run.getElem? (hl.symbol_lt hj)).trans hexpression'⟩
        · exact ⟨c, f, hC, hdecides, hexpression⟩

/-- The traces of a run since the last start of the process, behind the ones `before` it. -/
def callsSince (before : List Call) : Replay → List Step → List Call
  | _, [] => before
  | r, step :: steps =>
    callsSince (if step = .event .processStart then [] else before ++ (r.call? step).toList) (r.apply step) steps

/-- A start of the process empties the log, and any other step adds the constraint of its trace. -/
theorem constraints_apply (r : Replay) (step : Step) : (r.apply step).progress.constraints =
    if step = .event .processStart then []
    else r.progress.constraints ++ ((r.call? step).bind Call.constraint?).toList := by
  by_cases hs : step = .event .processStart
  · rw [if_pos hs, hs]
    show (r.deliver .processStart).progress.constraints = []
    rw [deliver_processStart]
    rfl
  · rw [if_neg hs]
    have ht := r.turn_apply step
    cases hc : r.call? step with
    | none =>
      rw [hc] at ht
      cases ht with
      | start => exact absurd rfl hs
      | quiet h => simpa using h.constraints
    | some c =>
      rw [hc] at ht
      cases ht with
      | trace h hk =>
        rw [hk.constraints, c.constraints_run, h.constraints]
        rfl

/-- The log is the constraints of the traces since the last start of the process, in order. -/
theorem constraints_after : ∀ (steps : List Step) (before : List Call) (r : Replay),
    r.progress.constraints = before.filterMap Call.constraint? →
      (r.after steps).progress.constraints = (callsSince before r steps).filterMap Call.constraint?
  | [], _, _, h => h
  | step :: steps, before, r, h => by
    refine constraints_after steps _ (r.apply step) ?_
    rw [constraints_apply, h]
    split
    · rfl
    · cases hc : r.call? step with
      | none => simp
      | some c => cases hk : c.constraint? <;> simp [hk]

/-- The log of path constraints in every state of a run. It is the constraints of the traces since the last start, and
their expressions increase. Each constraint is the decision at a fork that was traced: its expression is there and tells
the text, the target and the address behind the fork, and the target is the way taken iff the condition held, unless
both ways are one. Every conditional branch is a fork. A trace logs one constraint if it traces a symbolic branch and
none if not, and the constraint is on the expression that the program counter has. -/
theorem constraints_after_start (options : Options) (image : Image) (steps : List Step) :
    let r := start options image
    (r.after steps).progress.constraints = (callsSince [] r steps).filterMap Call.constraint? ∧
      (r.after steps).progress.constraints.Pairwise (fun j k => j.symbol < k.symbol) ∧
      (∀ k ∈ (r.after steps).progress.constraints, ∃ c ∈ r.calls steps, ∃ f, c.Decides f k ∧
        (r.after steps).analysis.expressions[k.symbol]? =
          some (numbered k.symbol (decisionText f.text f.target f.next)) ∧
        (k.taken = f.target ↔ f.holds = true ∨ f.target = f.next)) ∧
      ∀ c ∈ r.calls steps,
        (∀ d i, c.Examines d i → c.fork?.isSome = i.branch) ∧
        c.run.1.progress.constraints = c.session.progress.constraints ++ c.constraint?.toList ∧
        (c.constraint?.isSome = true ↔
          c.fork?.isSome = true ∧ ∃ tainted constraint, c.run.2 = .traced tainted true constraint) ∧
        ∀ k ∈ c.constraint?, (∃ f, c.Decides f k) ∧
          c.run.1.analysis.symbols.get? (.register .counter) = some k.symbol := by
  intro r
  obtain ⟨hlogged, _⟩ := (kept_logged (· ∈ r.calls steps)).after steps (fun _ hc => hc) (.of_nil rfl : Logged _ r)
  refine ⟨constraints_after steps [] r rfl, hlogged.increasing, fun k hk => ?_,
    fun c _ => ⟨fun _ _ h => h.isSome_fork?, c.constraints_run, c.isSome_constraint?, fun k hk => ?_⟩⟩
  · obtain ⟨c, f, hc, hdecides, hexpression⟩ := hlogged.decided k hk
    exact ⟨c, hc, f, hdecides, hexpression, hdecides.taken_eq_target_iff⟩
  · obtain ⟨f, hdecides, -, hcounter, -⟩ := Call.exists_decides hk
    exact ⟨⟨f, hdecides⟩, hcounter⟩

/-- A branch to the address behind it goes to its target even if its condition does not hold. -/
theorem exists_taken_eq_target_not_holds :
    let r := start { useSymbols := true } { segments := [⟨0x1000, #[0x74, 0x00], by decide⟩] }
    let steps := [.event .processStart, .registers [("rip", 0x1000)], .taintRegister "rflags"]
    ∃ k ∈ (r.after steps).progress.constraints, ∃ c ∈ r.calls steps, ∃ f, c.Decides f k ∧
      ¬(k.taken = f.target ↔ f.holds = true) := by
  intro r steps
  have hk : ⟨1, 0x1000, 0x1002, 0x1002⟩ ∈ (r.after steps).progress.constraints := by decide +kernel
  obtain ⟨c, hc, hpc, hf, ho⟩ : ∃ c ∈ r.calls steps, 0x1000 = c.pc ∧
      c.fork? = some ⟨"jz $+0x0", 0x1002, 0x1002, false⟩ ∧
      c.run.2 = .traced true true (some ⟨1, 0x1000, 0x1002, 0x1002⟩) := by decide +kernel
  exact ⟨_, hk, c, hc, _, ⟨hf, ⟨true, ho⟩, hpc, rfl⟩, by decide⟩

end Replay

end TaintReplay
