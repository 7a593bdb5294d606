import Mathlib.Data.List.Pairwise
import TaintReplay.Proofs.FunctionName
import TaintReplay.Proofs.Replay.Course
import TaintReplay.Proofs.Replay.Image
import TaintReplay.Proofs.Session.Names

/-!
# New names of functions

A step of a replay gives a new name to no function but the one in which its trace finds something (`names_apply`). As
long as no two functions share an address, the new name of a function depends on its own name and on the traces that
find something in it, its `Replay.occasions`: they tag it one by one until its name is recognised (`renamed_after`).
-/

namespace TaintReplay

open Session FunctionName

namespace FunctionRange

/-- The functions have no address in common. -/
def Apart (f g : FunctionRange) : Prop := ∀ address, ¬(f.contains address = true ∧ g.contains address = true)

instance : Std.Symm Apart := ⟨fun _ _ h address hboth => h address hboth.symm⟩

/-- Functions that have addresses, but none in common, do not begin at the same one. -/
theorem Apart.start_ne {f g : FunctionRange} (h : f.Apart g) (hf : f.start < f.stop) (hg : g.start < g.stop) :
    f.start ≠ g.start := by
  intro hstart
  refine h f.start ⟨?_, ?_⟩
  · simp [contains, hf]
  · simp [contains, hstart, hg]

theorem start_lt_stop_of_contains {f : FunctionRange} {address : UInt64} (h : f.contains address = true) :
    f.start < f.stop := by
  simp only [contains, Bool.and_eq_true, decide_eq_true_eq] at h
  exact UInt64.lt_of_le_of_lt h.1 h.2

end FunctionRange

namespace Names

/-- The new name of a function, if it has got one. -/
def entry (n : Names) (f : FunctionRange) : Option String := n.renames[f.start]?

/-- What a step does to the names, given where its trace finds something. -/
def apply (n : Names) (found? : Option UInt64) : Step → Names
  | .event .processStart => { n with renamed := 0 }
  | .function f => { n with functions := n.functions ++ [f] }
  | _ =>
    match found? with
    | some address => n.tag address
    | none => n

variable (n : Names) {f : FunctionRange} {address : UInt64}

theorem entry_apply_none (step : Step) : (n.apply none step).entry f = n.entry f := by
  cases step with
  | event e => cases e <;> rfl
  | _ => rfl

theorem apply_eq (found? : Option UInt64) {step : Step} (hstart : step ≠ .event .processStart)
    (hfunction : step.function? = none) : n.apply found? step = found?.elim n n.tag := by
  cases step with
  | event e =>
    cases e with
    | processStart => exact absurd rfl hstart
    | _ => cases found? <;> rfl
  | function f => cases hfunction
  | _ => cases found? <;> rfl

/-- The function in which something is found gets the next number. -/
theorem entry_tag (h : n.functions.find? (·.contains address) = some f) :
    (n.tag address).entry f = retag f.name (n.entry f) n.renamed := by
  have hname : n.renames.getD f.start f.name = (n.entry f).getD f.name := Std.TreeMap.getD_eq_getD_getElem?
  unfold tag retag
  rw [h]
  dsimp only
  rw [hname]
  split
  · rfl
  · simp [entry]

/-- A function keeps its name as long as nothing is found in a function that begins where it does. -/
theorem entry_tag_of_ne (h : ∀ g, n.functions.find? (·.contains address) = some g → g.start ≠ f.start) :
    (n.tag address).entry f = n.entry f := by
  unfold tag
  split
  · rfl
  · rename_i g hg
    dsimp only
    split
    · rfl
    · have hcompare : compare g.start f.start ≠ .eq := fun hc => h g hg (Std.compare_eq_iff_eq.1 hc)
      simp [entry, Std.TreeMap.getElem?_insert, hcompare]

end Names

namespace Replay

/-! ## Steps -/

/-- Where the trace of a step finds an instruction tainted or symbolic, if new names are wanted. -/
def found? (r : Replay) (step : Step) : Option UInt64 :=
  match r.call? step with
  | some c => if r.options.renameTainted && c.run.2.finds then some c.pc else none
  | none => none

/-- Without a trace no names are given. -/
theorem Untraced.names {r t : Replay} {seeded : Bool} {executed : List UInt64} (h : r.Untraced seeded executed t)
    (hfunctions : t.debugger.image.functions = r.debugger.image.functions) : t.names = r.names := by
  have hrenames : t.debugger.renames = r.debugger.renames := congrArg Findings.renames h.findings
  have hrenamed : t.progress.renamed = r.progress.renamed := congrArg Findings.renamed h.findings
  unfold Session.names
  rw [hfunctions, hrenames, hrenamed]

/-- What a step does to the names depends on them, and on where its trace finds something. -/
theorem names_apply (r : Replay) (step : Step) : (r.apply step).names = r.names.apply (r.found? step) step := by
  have hfunctions := r.functions_apply step
  cases hfunction : step.function? with
  | some f =>
    cases step with
    | function g => rfl
    | _ => cases hfunction
  | none =>
    rw [hfunction, Option.toList_none, List.append_nil] at hfunctions
    by_cases hstart : step = .event .processStart
    · obtain ⟨_, hannounced⟩ := exists_announceStart_eq r.options r.debugger
      subst hstart
      show (r.deliver .processStart).names = _
      rw [deliver_processStart, restarted, hannounced]
      rfl
    · have hcourse := r.course_apply hstart
      rw [Names.apply_eq _ _ hstart hfunction]
      unfold found?
      cases hc : r.call? step with
      | none =>
        rw [hc] at hcourse
        cases hcourse with
        | quiet h => exact h.names hfunctions
      | some c =>
        rw [hc] at hcourse
        cases hcourse with
        | trace h hk =>
          have himage : c.session.debugger.image = r.debugger.image := r.image_call? hc
          have hrun : c.run.1.debugger.image = c.session.debugger.image :=
            congrArg Control.image (control_trace ..)
          have hsession : c.session.names = r.names := h.names (congrArg Image.functions himage)
          have hfinal : (r.apply step).names = c.run.1.names :=
            hk.names (by rw [hfunctions, hrun, himage])
          have htrace : c.run.1.names =
              if c.session.options.renameTainted && c.run.2.finds then c.session.names.tag c.pc else c.session.names :=
            c.session.names_trace c.pc c.thread
          rw [hfinal, htrace, hsession, h.options]
          dsimp only
          split
          · rfl
          · rfl

/-! ## Runs -/

/-- The number that was next at each trace of a run that found something in a function. -/
def occasions (f : FunctionRange) : Replay → List Step → List Nat
  | _, [] => []
  | r, step :: steps =>
    let here := if (r.found? step).bind r.debugger.image.functionAt = some f then [r.progress.renamed] else []
    here ++ occasions f (r.apply step) steps

/-- A step whose trace finds something neither starts the process nor makes a function known. -/
theorem ordinary_of_found? {r : Replay} {step : Step} {address : UInt64} (h : r.found? step = some address) :
    step ≠ .event .processStart ∧ step.function? = none := by
  cases step with
  | event e =>
    refine ⟨?_, rfl⟩
    rintro ⟨⟩
    cases h
  | function f => cases h
  | _ => exact ⟨nofun, rfl⟩

section Runs

variable {functions : List FunctionRange} (hapart : functions.Pairwise FunctionRange.Apart) {f : FunctionRange}
  (hf : f ∈ functions) (hspan : f.start < f.stop)
include hapart hf hspan

/-- Of functions that are apart, a step gives a new name to no other than the one in which its trace finds something. -/
theorem entry_apply {r : Replay} (hknown : r.debugger.image.functions ⊆ functions) (step : Step) :
    (r.apply step).names.entry f = (r.occasions f [step]).foldl (retag f.name) (r.names.entry f) := by
  rw [names_apply]
  unfold occasions
  cases hfound : r.found? step with
  | none => exact r.names.entry_apply_none step
  | some address =>
    obtain ⟨hstart, hfunction⟩ := ordinary_of_found? hfound
    have hat : r.debugger.image.functionAt address = r.names.functions.find? (·.contains address) := rfl
    rw [Names.apply_eq _ _ hstart hfunction, Option.elim_some, Option.bind_some, hat]
    by_cases hhere : r.names.functions.find? (·.contains address) = some f
    · rw [if_pos hhere]
      exact r.names.entry_tag hhere
    · rw [if_neg hhere]
      refine r.names.entry_tag_of_ne fun g hg => ?_
      have hne : g ≠ f := fun h => hhere (h ▸ hg)
      have hmem : g ∈ functions := hknown (List.mem_of_find?_eq_some hg)
      have happart : g.Apart f := hapart.forall hmem hf hne
      have hcontains : g.contains address = true := by simpa using List.find?_some hg
      exact happart.start_ne (FunctionRange.start_lt_stop_of_contains hcontains) hspan

/-- The new name of a function comes from the name that it has and from the occasions that follow. -/
theorem entry_after (steps : List Step) : ∀ {r : Replay}, (r.after steps).debugger.image.functions = functions →
    (r.after steps).names.entry f = (r.occasions f steps).foldl (retag f.name) (r.names.entry f) := by
  induction steps with
  | nil => exact fun _ => rfl
  | cons step steps ih =>
    intro r hfunctions
    have hknown : r.debugger.image.functions ⊆ functions := by
      rw [← hfunctions, functions_after]
      exact List.subset_append_left _ _
    have hoccasions : r.occasions f (step :: steps) = r.occasions f [step] ++ (r.apply step).occasions f steps := by
      simp [occasions]
    have hrest := ih (r := r.apply step) hfunctions
    rw [hoccasions, List.foldl_append, ← entry_apply hapart hf hspan hknown step]
    exact hrest

end Runs

/-- The new name of a function, if it has got one. -/
def newName? (r : Replay) (f : FunctionRange) : Option String := r.debugger.renames[f.start]?

/-- How functions are renamed, as long as no two of them share an address. In every state of a run, the new name of a
function that has addresses is its own name with one tag for each trace that has found something in it, up to the first
tag that makes the name recognised. A name that is recognised is not changed in the rest of the run. So a function with
a name is renamed at most once if the number that it gets is below a thousand; a tag that is put in front of an empty
name, or that has a higher number, is not recognised. -/
theorem renamed_after (o : Options) (image : Image) (steps : List Step)
    (hapart : (image.functions ++ steps.filterMap Step.function?).Pairwise FunctionRange.Apart) :
    let r := start o image
    (∀ f ∈ image.functions ++ steps.filterMap Step.function?, f.start < f.stop →
      (r.after steps).newName? f = (r.occasions f steps).foldl (retag f.name) none ∧
        (∀ before later name, steps = before ++ later → (r.after before).newName? f = some name →
          isTagged name = true → (r.after steps).newName? f = some name) ∧
        ∀ index later, r.occasions f steps = index :: later → isTagged f.name = false → f.name ≠ "" → index < 1000 →
          (r.after steps).newName? f = some (tagged index f.name)) ∧
      ∀ index name, isTagged (tagged index name) = true ↔ index < 1000 ∧ name ≠ "" := by
  intro r
  refine ⟨fun f hf hspan => ?_, isTagged_tagged_iff⟩
  have hfunctions := functions_after steps r
  have hnew : (r.after steps).newName? f = (r.occasions f steps).foldl (retag f.name) none :=
    entry_after hapart hf hspan steps hfunctions
  refine ⟨hnew, ?_, ?_⟩
  · rintro before later name rfl hname htagged
    have hsplit : r.after (before ++ later) = (r.after before).after later := List.foldl_append
    rw [hsplit] at hfunctions ⊢
    have hlater : ((r.after before).after later).newName? f =
        ((r.after before).occasions f later).foldl (retag f.name) ((r.after before).newName? f) :=
      entry_after hapart hf hspan later hfunctions
    rw [hlater, hname]
    exact foldl_retag_of_isTagged htagged f.name _
  · intro index later hoccasions htagged hname hindex
    rw [hnew, hoccasions]
    exact foldl_retag_once htagged hname hindex later

/-- Two tainted instructions of a function give it one new name. -/
theorem renamed_after_two_traces :
    let main : FunctionRange := ⟨0x1000, 0x1010, "main"⟩
    let image : Image := { segments := [⟨0x1000, #[0x48, 0x89, 0xf8, 0x48, 0x89, 0xc1, 0xc3], by decide⟩] }
    let steps : List Step :=
      [.function main, .registers [("rip", 0x1000)], .taintRegister "rdi", .event (.stepInto 1 0x1003)]
    (image.functions ++ steps.filterMap Step.function?).Pairwise FunctionRange.Apart ∧
      ((start {} image).after steps).newName? main = some "T000_main" := by
  intro main image steps
  have hapart : (image.functions ++ steps.filterMap Step.function?).Pairwise FunctionRange.Apart :=
    List.pairwise_singleton _ main
  have hoccasions : (start {} image).occasions main steps = [0, 1] := by decide +kernel
  obtain ⟨-, -, honce⟩ := (renamed_after {} image steps hapart).1 main (List.mem_singleton_self main) (by decide)
  exact ⟨hapart, honce 0 [1] hoccasions (by decide) (by decide) (by decide)⟩

/-- A function without a name is renamed by each of its first two tainted instructions. Neither is a number of four
digits recognised. -/
theorem exists_renamed_twice :
    let nameless : FunctionRange := ⟨0x1000, 0x1010, ""⟩
    let r := (start {} { segments := [⟨0x1000, #[0x48, 0x89, 0xf8, 0x48, 0x89, 0xc1, 0xc3], by decide⟩] }).after
      [.function nameless, .registers [("rip", 0x1000)], .taintRegister "rdi"]
    r.newName? nameless = some "T000_" ∧
      (r.after [.event (.stepInto 1 0x1003)]).newName? nameless = some "T001_T000_" ∧
      isTagged (tagged 1000 "main") = false := by
  decide +kernel

end Replay

end TaintReplay
