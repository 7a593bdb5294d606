import TaintReplay.Proofs.Analysis.Table
import TaintReplay.Proofs.Replay.Course
import TaintReplay.Proofs.Replay.PathLog
import TaintReplay.Proofs.Session.Fetch

/-!
# The table of expressions in a run

The analysis of a replay is built from its sources and from the instructions that it traces, so in every state of a run
it has a table of expressions that it is `Tabled` with (`kept_built`). The current instruction lists expressions of this
table (`listed_apply`): a trace lists what it adds, and no step takes an expression away but a start of the process,
which leaves no current instruction.
-/

namespace TaintReplay

open Session Shadow

namespace Session

variable {α : Type}

/-- The expressions that the current instruction lists are there. -/
def Listed (s : Session α Shadow Recorder) : Prop :=
  ∀ i ∈ s.progress.current, ∀ n ∈ i.expressions, n < s.analysis.expressions.size

theorem Listed.extend {s t : Session α Shadow Recorder} (h : s.Listed)
    (hcurrent : t.progress.current = s.progress.current) (hextends : s.analysis.Extends t.analysis) : t.Listed := by
  intro i hi n hn
  rw [hcurrent] at hi
  exact Nat.lt_of_lt_of_le (h i hi n hn) hextends.size_le

/-- A trace lists no expressions but those that it adds. -/
theorem Listed.trace {s : Session α Shadow Recorder} (h : s.Listed) (pc thread : UInt64) :
    (s.trace pc thread).1.Listed := by
  cases harmed : s.progress.armed with
  | false =>
    rw [trace_dormant s pc thread harmed]
    exact h
  | true =>
    cases hd : X86.decode (s.debugger.codeAt pc) with
    | none =>
      rw [trace_of_not_decode harmed hd]
      intro i hi n hn
      rw [← Option.some.inj hi] at hn
      cases hn
    | some d =>
      rw [trace_of_decode harmed hd]
      generalize recordOf d (s.debugger.codeAt pc) pc thread = i
      obtain ⟨hstate, hnumbers⟩ := s.analysis.step_enters d i s.debugger.register
      generalize (Session.inform _ _ _ : Session α Shadow Recorder) = u
      generalize s.analysis.step d i s.debugger.register = stepped at hstate hnumbers ⊢
      have hanalysis : ((u.advance stepped.1).report stepped.2).1.analysis = stepped.1 :=
        ((u.advance stepped.1).logs_report stepped.2).analysis
      intro j hj n hn
      rw [current_report] at hj
      rw [← Option.some.inj hj, Instruction.trust, hnumbers, List.mem_range'_1] at hn
      rw [hanalysis, hstate, size_foldl_enter]
      exact hn.2

end Session

namespace Replay

theorem kept_built : Kept (fun _ => True) fun r => ∃ table, r.analysis.Built table where
  start _ ha _ _ := ⟨[], ha ▸ .fresh _ _⟩
  prepare hp h := by
    obtain ⟨_, hbuilt⟩ := h
    obtain ⟨_, hmore⟩ := hbuilt.seeded hp.analysis
    exact ⟨_, hmore⟩
  step {c d i} hdi _ h := by
    obtain ⟨_, hbuilt⟩ := h
    rw [hdi.run.2.analysis]
    exact ⟨_, hbuilt.step d i _⟩

theorem listed_apply {r : Replay} (h : r.Listed) (step : Step) : (r.apply step).Listed := by
  by_cases hstart : step = .event .processStart
  · subst hstart
    show (r.deliver .processStart).Listed
    rw [deliver_processStart]
    exact fun i hi => nomatch hi
  · have hcourse := r.course_apply hstart
    have hturn := r.turn_apply step
    cases hc : r.call? step with
    | none =>
      rw [hc] at hcourse hturn
      cases hcourse with
      | quiet hu =>
        cases hturn with
        | start => exact absurd rfl hstart
        | quiet hp => exact h.extend hu.current hp.analysis.extends
    | some c =>
      rw [hc] at hcourse hturn
      cases hcourse with
      | trace hu hk =>
        cases hturn with
        | trace hp hkeeps =>
          -- what is listed may still be of an earlier instruction here, since the trace may be a dormant one
          have hbefore : c.session.Listed := h.extend hu.current hp.analysis.extends
          refine (hbefore.trace c.pc c.thread).extend hk.current ?_
          rw [hkeeps.analysis]
          exact .refl _

theorem listed_after (steps : List Step) : ∀ {r : Replay}, r.Listed → (r.after steps).Listed := by
  induction steps with
  | nil => exact fun h => h
  | cons step steps ih => exact fun h => ih (listed_apply h step)

/-- Expressions form a well-founded table. In every state of a run, the expressions are those that sources and
instructions have added. Their texts begin with their numbers and list the expressions that they are made from, which
are older. The variables are numbered in their order, and counted. A cell that holds an expression holds the latest that
was written to it, and a location has the newest that its cells hold. The current instruction lists expressions that are
there, and their texts are found one by one. -/
theorem expressions_after_start (options : Options) (image : Image) (steps : List Step) :
    let r := (start options image).after steps
    ∃ table : List Expression, r.analysis.Built table ∧
      (∀ (n : Nat) (text : String), r.analysis.expressions[n]? = some text →
        ∃ e, table[n]? = some e ∧ text = "#" ++ toString n ++ " = " ++ e.render ∧ ∀ p ∈ e.parents, p < n) ∧
      table.filterMap Expression.number? = List.range r.analysis.variableCount ∧
      (∀ c n, r.analysis.symbols.get? c = some n → n < r.analysis.expressions.size ∧ Expression.Latest table c n) ∧
      (∀ l n, r.analysis.symbolAt l = some n ↔ (∃ c ∈ l.cells, r.analysis.symbols.get? c = some n) ∧
        ∀ c ∈ l.cells, ∀ k, r.analysis.symbols.get? c = some k → k ≤ n) ∧
      ∀ i ∈ r.progress.current, (∀ n ∈ i.expressions, n < r.analysis.expressions.size) ∧
        (Analyzer.expressionTexts r.analysis i).map some = i.expressions.map (r.analysis.expressions[·]?) := by
  intro r
  obtain ⟨⟨table, hbuilt⟩, -⟩ := kept_built.after steps (r := start options image) (fun _ _ => trivial)
    ⟨[], .fresh _ _⟩
  have htabled : r.analysis.Tabled table := hbuilt.tabled
  have hlisted : r.Listed := listed_after steps fun i hi => nomatch hi
  refine ⟨table, hbuilt, fun n text hn => ?_, htabled.numbers, fun c n hn => ?_, fun l n => symbolAt_eq_some_iff _,
    fun i hi => ⟨hlisted i hi, map_expressionTexts _ (hlisted i hi)⟩⟩
  · rw [htabled.getElem?_expressions] at hn
    obtain ⟨e, he, rfl⟩ := Option.map_eq_some_iff.1 hn
    exact ⟨e, he, rfl, htabled.founded n e he⟩
  · have hlatest := htabled.latest c n hn
    obtain ⟨e, he, -⟩ := hlatest.1
    rw [htabled.size_eq]
    exact ⟨(List.getElem?_eq_some_iff.1 he).1, hlatest⟩

end Replay

end TaintReplay
