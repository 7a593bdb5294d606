import Mathlib.Combinatorics.Enumerative.DyckWord
import TaintReplay.Proofs.Analysis.Flags
import TaintReplay.Proofs.Analysis.Stack

/-!
# Nested pushes and pops

Balanced pushes and pops, each at the stack pointer that the one before it leaves, fall into nested pairs
(`balanced_of_stackRun`). What is inside a pair works below the slot of its push (`sameMarks_of_balanced`), so when the
pop reads the slot, this still has the marks that the push gave it (`nested_of_balanced`). Hence the pop is tainted iff
the push is, and symbolic iff the push is (`pop_mirrors_push`).
-/

namespace TaintReplay

/-- The list falls into nested pairs: between the two elements of a pair, and after it, there are whole pairs. -/
inductive Nested {α : Type} (R : α → α → Prop) : List α → Prop
  | nil : Nested R []
  | pair {x y : α} {inner rest : List α} (related : R x y) (inside : Nested R inner) (after : Nested R rest) :
      Nested R (x :: inner ++ y :: rest)

/-! ## Sequences of pushes and pops -/

/-- It is a push and finds the stack pointer at `stack`. -/
def PushesAt (stack : UInt64) (x : Instruction × RegisterFile) : Prop :=
  ∃ d, X86.decodeWhole x.1.opcode = some d ∧ d.opcode = .push ∧ x.2 .rsp = some stack

/-- It is a pop into a register and finds the stack pointer at `stack`. -/
def PopsAt (stack : UInt64) (x : Instruction × RegisterFile) : Prop :=
  ∃ d r, X86.decodeWhole x.1.opcode = some d ∧ d.opcode = .pop ∧ d.operands = [.register r] ∧ x.2 .rsp = some stack

/-- Pushes and pops in the order of the steps. The first finds the stack pointer at `stack`, and each moves it by eight
for the next. -/
inductive StackRun : UInt64 → List DyckStep → List (Instruction × RegisterFile) → Prop
  | nil {stack : UInt64} : StackRun stack [] []
  | push {stack : UInt64} {x : Instruction × RegisterFile} {steps : List DyckStep}
      {inputs : List (Instruction × RegisterFile)} (first : PushesAt stack x)
      (rest : StackRun (stack - 8) steps inputs) : StackRun stack (.U :: steps) (x :: inputs)
  | pop {stack : UInt64} {x : Instruction × RegisterFile} {steps : List DyckStep}
      {inputs : List (Instruction × RegisterFile)} (first : PopsAt stack x)
      (rest : StackRun (stack + 8) steps inputs) : StackRun stack (.D :: steps) (x :: inputs)

/-- Where the steps leave the stack pointer. -/
def pointerAfter (stack : UInt64) : List DyckStep → UInt64
  | [] => stack
  | .U :: steps => pointerAfter (stack - 8) steps
  | .D :: steps => pointerAfter (stack + 8) steps

theorem StackRun.append {stack : UInt64} {front back : List DyckStep} {inputs : List (Instruction × RegisterFile)}
    (h : StackRun stack (front ++ back) inputs) :
    ∃ xs ys, inputs = xs ++ ys ∧ StackRun stack front xs ∧ StackRun (pointerAfter stack front) back ys := by
  induction front generalizing stack inputs with
  | nil => exact ⟨[], inputs, rfl, .nil, h⟩
  | cons step front ih =>
    cases h with
    | push first rest =>
      obtain ⟨xs, ys, rfl, hfront, hback⟩ := ih rest
      exact ⟨_ :: xs, ys, rfl, .push first hfront, hback⟩
    | pop first rest =>
      obtain ⟨xs, ys, rfl, hfront, hback⟩ := ih rest
      exact ⟨_ :: xs, ys, rfl, .pop first hfront, hback⟩

theorem pointerAfter_append (stack : UInt64) (front back : List DyckStep) :
    pointerAfter stack (front ++ back) = pointerAfter (pointerAfter stack front) back := by
  induction front generalizing stack with
  | nil => rfl
  | cons step front ih => cases step <;> exact ih _

/-- Nested pairs of a push and a pop, of which no more than `depth` are open at once. -/
inductive Balanced : UInt64 → Nat → List (Instruction × RegisterFile) → Prop
  | nil {stack : UInt64} {depth : Nat} : Balanced stack depth []
  | pair {stack : UInt64} {depth : Nat} {x y : Instruction × RegisterFile}
      {inner rest : List (Instruction × RegisterFile)} (push : PushesAt stack x)
      (inside : Balanced (stack - 8) depth inner) (pop : PopsAt (stack - 8) y)
      (after : Balanced stack (depth + 1) rest) :
      Balanced stack (depth + 1) (x :: inner ++ y :: rest)

/-- A balanced word is empty, or it starts with a nested one. -/
theorem dyckWord_induction {P : DyckWord → Prop} (zero : P 0) (nest_add : ∀ v w, P v → P w → P (v.nest + w))
    (w : DyckWord) : P w := by
  by_cases h : w = 0
  · exact h ▸ zero
  · have hinside := DyckWord.semilength_insidePart_lt h
    have houtside := DyckWord.semilength_outsidePart_lt h
    rw [← DyckWord.nest_insidePart_add_outsidePart h]
    exact nest_add _ _ (dyckWord_induction zero nest_add _) (dyckWord_induction zero nest_add _)
termination_by w.semilength

theorem toList_nest_add (v w : DyckWord) : (v.nest + w).toList = .U :: v.toList ++ .D :: w.toList := by
  show ([.U] ++ v.toList ++ [.D]) ++ w.toList = _
  simp

/-- Balanced steps leave the stack pointer where it was. -/
theorem pointerAfter_dyckWord (w : DyckWord) (stack : UInt64) : pointerAfter stack w.toList = stack := by
  induction w using dyckWord_induction generalizing stack with
  | zero => rfl
  | nest_add v w hv hw =>
    rw [toList_nest_add, pointerAfter_append]
    show pointerAfter (pointerAfter (stack - 8) v.toList + 8) w.toList = stack
    rw [hv, UInt64.sub_add_cancel, hw]

/-- Pushes and pops in the order of balanced steps are nested, and no deeper than the steps. -/
theorem balanced_of_stackRun {stack : UInt64} {w : DyckWord} {inputs : List (Instruction × RegisterFile)} {depth : Nat}
    (h : StackRun stack w.toList inputs)
    (hdepth : ∀ steps, steps <+: w.toList → steps.count .U ≤ steps.count .D + depth) :
    Balanced stack depth inputs := by
  induction w using dyckWord_induction generalizing stack inputs depth with
  | zero =>
    cases h
    exact .nil
  | nest_add v w hv hw =>
    rw [toList_nest_add] at h hdepth
    have hfirst : 1 ≤ depth := by simpa using hdepth [.U] (List.prefix_append [_] _)
    obtain ⟨depth, rfl⟩ := Nat.exists_eq_add_one.2 hfirst
    obtain ⟨xs, ys, rfl, hpushes, hpops⟩ := h.append
    rw [show pointerAfter stack (.U :: v.toList) = stack - 8 from pointerAfter_dyckWord v _] at hpops
    cases hpushes with | push push inside =>
    cases hpops with | pop pop after =>
    rw [UInt64.sub_add_cancel] at after
    refine .pair push (hv inside fun steps hsteps => ?inner) pop (hw after fun steps hsteps => ?rest)
    case inner =>
      have hprefix : .U :: steps <+: .U :: v.toList ++ .D :: w.toList :=
        (List.cons_prefix_cons.2 ⟨rfl, hsteps⟩).trans (List.prefix_append _ _)
      have hcount := hdepth _ hprefix
      simp only [List.count_cons_self, ne_eq, reduceCtorEq, not_false_eq_true, List.count_cons_of_ne] at hcount
      omega
    case rest =>
      have hprefix : .U :: v.toList ++ .D :: steps <+: .U :: v.toList ++ .D :: w.toList :=
        (List.prefix_append_right_inj _).2 (List.cons_prefix_cons.2 ⟨rfl, hsteps⟩)
      have hcount := hdepth _ hprefix
      have hbalanced := v.count_U_eq_count_D
      simp only [List.cons_append, List.count_cons_self, List.count_append, ne_eq, reduceCtorEq, not_false_eq_true,
        List.count_cons_of_ne] at hcount
      omega

/-! ## Slots below the stack pointer -/

/-- The byte belongs to none of the `depth` slots below the stack pointer. -/
def Spared (stack : UInt64) (depth : Nat) (a : UInt64) : Prop := 8 * depth ≤ (stack - 1 - a).toNat

section Spared

variable {stack a : UInt64} {depth : Nat}

theorem mem_slot_iff : .byte a ∈ (Location.memory (stack - 8) 8).cells ↔ (stack - 1 - a).toNat < 8 := by
  simp only [Location.cells, List.mem_map, List.mem_range, Cell.byte.injEq]
  constructor
  · rintro ⟨n, hn, rfl⟩
    simp only [UInt64.toNat_sub, UInt64.toNat_add, UInt64.toNat_ofNat', UInt64.reduceToNat]
    omega
  · intro h
    have ha := a.toNat_lt
    have hstack := stack.toNat_lt
    refine ⟨7 - (stack - 1 - a).toNat, by omega, UInt64.toNat_inj.1 ?_⟩
    simp only [UInt64.toNat_sub, UInt64.toNat_add, UInt64.toNat_ofNat', UInt64.reduceToNat] at h ⊢
    omega

theorem Spared.not_mem_slot (h : Spared stack (depth + 1) a) : .byte a ∉ (Location.memory (stack - 8) 8).cells := by
  rw [mem_slot_iff]
  unfold Spared at h
  omega

theorem Spared.inner (h : Spared stack (depth + 1) a) : Spared (stack - 8) depth a := by
  unfold Spared at h ⊢
  simp only [UInt64.toNat_sub, UInt64.reduceToNat] at h ⊢
  omega

/-- What is below a slot spares the slot. -/
theorem spared_of_mem_slot (h : .byte a ∈ (Location.memory (stack - 8) 8).cells) (hdepth : depth < 2 ^ 61) :
    Spared (stack - 8) depth a := by
  rw [mem_slot_iff] at h
  unfold Spared
  simp only [UInt64.toNat_sub, UInt64.reduceToNat] at h ⊢
  omega

end Spared

namespace Shadow

variable (s : Shadow)

/-! ## One push, one pop -/

/-- Feeding switches nothing on or off. -/
theorem switches_feed (x : Instruction × RegisterFile) :
    (s.feed x.1 x.2).1.taintOn = s.taintOn ∧ (s.feed x.1 x.2).1.symbolicOn = s.symbolicOn := by
  cases hd : X86.decodeWhole x.1.opcode with
  | none =>
    rw [s.feed_of_not_decodes _ _ hd]
    exact ⟨rfl, rfl⟩
  | some d =>
    rw [s.feed_of_decodes _ _ hd]
    exact ⟨s.taintOn_step _ _ d, s.symbolicOn_step _ _ d⟩

theorem switches_feedAll (inputs : List (Instruction × RegisterFile)) :
    (s.feedAll inputs).1.taintOn = s.taintOn ∧ (s.feedAll inputs).1.symbolicOn = s.symbolicOn := by
  induction inputs generalizing s with
  | nil => exact ⟨rfl, rfl⟩
  | cons x inputs ih =>
    obtain ⟨htaint, hsymbolic⟩ := ih (s.feed x.1 x.2).1
    exact ⟨htaint.trans (s.switches_feed x).1, hsymbolic.trans (s.switches_feed x).2⟩

/-- A push has stored its marks in the slot, and has left all other bytes alone. -/
structure HasPushed (stack : UInt64) (s : Shadow) (k : Instruction) (t : Shadow) : Prop where
  stored : s.Stored (stack - 8) 8 k.tainted t
  symbolic : s.symbolicOn = true → ∀ c ∈ (Location.memory (stack - 8) 8).cells, t.isSymbolic c = k.symbolized

/-- A pop has loaded its marks from the slot, and has left all bytes alone. -/
structure HasPopped (stack : UInt64) (s : Shadow) (k : Instruction) (t : Shadow) : Prop where
  loaded : s.Loaded stack 8 k.tainted
  symbolic : k.symbolized = true ↔
    s.symbolicOn = true ∧ ∃ c ∈ (Location.memory stack 8).cells, s.isSymbolic c = true
  kept : ∀ a, s.SameMarks t (.byte a)

variable {stack : UInt64} {x : Instruction × RegisterFile}

theorem exists_feed_of_pushesAt (h : PushesAt stack x) :
    ∃ t k, s.feed x.1 x.2 = (t, some k) ∧ HasPushed stack s k t := by
  obtain ⟨i, registers⟩ := x
  obtain ⟨d, hd, ho, hstack⟩ := h
  obtain ⟨o, hoperands⟩ := X86.operands_of_movesStack (X86.decode_of_decodeWhole hd).1 (by rw [ho]; rfl)
  refine ⟨_, _, s.feed_of_decodes i registers hd, s.stored_of_push i hstack hoperands ho, fun hon c hc => ?_⟩
  have hwritten : c ∈ (Flow.of d (describe d i).next registers).written := by
    rw [flow_of_push ho hstack hoperands]
    exact List.mem_flatMap.2 ⟨_, List.mem_singleton_self _, hc⟩
  have hbranch : (describe d i).branch = false := by
    show d.opcode.branch?.isSome = false
    rw [ho]
    rfl
  rw [isSymbolic_step, symbolized_step, if_pos ⟨hon, hwritten⟩, hbranch, hon]
  rfl

theorem exists_feed_of_popsAt (h : PopsAt stack x) :
    ∃ t k, s.feed x.1 x.2 = (t, some k) ∧ HasPopped stack s k t := by
  obtain ⟨i, registers⟩ := x
  obtain ⟨d, r, hd, ho, hoperands, hstack⟩ := h
  have hflow : Flow.of d (describe d i).next registers = _ := flow_of_pop ho hstack hoperands
  refine ⟨_, _, s.feed_of_decodes i registers hd, s.loaded_of_pop i hstack hoperands ho, ?symbolic, fun a => ?kept⟩
  case symbolic =>
    rw [symbolized_step, Bool.and_eq_true, readsSymbol_iff, hflow]
    simp only [List.mem_singleton, exists_eq_left]
    rfl
  case kept =>
    refine s.sameMarks_step i registers (by rw [ho]; rfl) fun l hl => ?_
    rw [hflow] at hl
    rw [List.mem_singleton.1 hl]
    exact fun hc => nomatch List.mem_singleton.1 hc

/-- What reads a slot whose bytes are all alike is like them. -/
theorem eq_of_reads_slot {start : UInt64} {marked : Cell → Bool} {on written read : Bool} (hon : on = true)
    (hwritten : ∀ c ∈ (Location.memory start 8).cells, marked c = written)
    (hread : read = true ↔ on = true ∧ ∃ c ∈ (Location.memory start 8).cells, marked c = true) : read = written := by
  rw [Bool.eq_iff_iff, hread, and_iff_right hon]
  constructor
  · rintro ⟨c, hc, hmarked⟩
    rwa [hwritten c hc] at hmarked
  · intro h
    have hfirst : .byte (start + UInt64.ofNat 0) ∈ (Location.memory start 8).cells := List.mem_cons_self
    exact ⟨_, hfirst, (hwritten _ hfirst).trans h⟩

/-- A pop has the marks of a push if its slot has kept them in between. -/
theorem HasPopped.eq_of_sameMarks {s t u v : Shadow} {k l : Instruction} (hpop : HasPopped (stack - 8) u l v)
    (hpush : HasPushed stack s k t) (htaint : u.taintOn = s.taintOn) (hsymbolic : u.symbolicOn = s.symbolicOn)
    (hsame : ∀ c ∈ (Location.memory (stack - 8) 8).cells, t.SameMarks u c) :
    (s.taintOn = true → l.tainted = k.tainted) ∧ (s.symbolicOn = true → l.symbolized = k.symbolized) := by
  constructor
  · intro hon
    refine eq_of_reads_slot (htaint.trans hon) (fun c hc => ?_) hpop.loaded
    rw [(hsame c hc).tainted, hpush.stored.written c hc, if_pos hon]
  · intro hon
    refine eq_of_reads_slot (hsymbolic.trans hon) (fun c hc => ?_) hpop.symbolic
    rw [(hsame c hc).isSymbolic, hpush.symbolic hon c hc]

/-! ## Runs -/

/-- A pair is fed as its push, what is inside it, its pop, and what follows. -/
theorem feedAll_pair {x y : Instruction × RegisterFile} {inner rest : List (Instruction × RegisterFile)}
    {t v : Shadow} {k l : Instruction} (hx : s.feed x.1 x.2 = (t, some k))
    (hy : (t.feedAll inner).1.feed y.1 y.2 = (v, some l)) : s.feedAll (x :: inner ++ y :: rest) =
      ((v.feedAll rest).1, some k :: (t.feedAll inner).2 ++ some l :: (v.feedAll rest).2) := by
  rw [List.cons_append, feedAll_cons, hx, feedAll_append, feedAll_cons, hy]
  rfl

/-- Nested pushes and pops change no byte but those below the stack pointer. -/
theorem sameMarks_of_balanced {depth : Nat} {inputs : List (Instruction × RegisterFile)} {a : UInt64}
    (h : Balanced stack depth inputs) (ha : Spared stack depth a) : s.SameMarks (s.feedAll inputs).1 (.byte a) := by
  induction h generalizing s with
  | nil => exact ⟨rfl, rfl⟩
  | pair push inside pop after ihInside ihAfter =>
    obtain ⟨t, k, hx, hpushed⟩ := s.exists_feed_of_pushesAt push
    obtain ⟨v, l, hy, hpopped⟩ := (t.feedAll _).1.exists_feed_of_popsAt pop
    rw [s.feedAll_pair hx hy]
    exact (hpushed.stored.kept a ha.not_mem_slot).trans <| (ihInside t ha.inner).trans <|
      (hpopped.kept a).trans (ihAfter v ha)

/-- The first is a push and the second a pop, whose record has the marks of the push's record, as far as taint and
expressions are on. -/
structure Mirrors (taintOn symbolicOn : Bool) (x y : (Instruction × RegisterFile) × Option Instruction) : Prop where
  push : ∃ stack, PushesAt stack x.1
  pop : ∃ stack, PopsAt stack y.1
  records : ∃ k l, x.2 = some k ∧ y.2 = some l ∧
    (taintOn = true → l.tainted = k.tainted) ∧ (symbolicOn = true → l.symbolized = k.symbolized)

theorem nested_of_balanced {depth : Nat} (hdepth : depth < 2 ^ 61) {inputs : List (Instruction × RegisterFile)}
    (h : Balanced stack depth inputs) :
    Nested (Mirrors s.taintOn s.symbolicOn) (inputs.zip (s.feedAll inputs).2) := by
  induction h generalizing s with
  | nil => exact .nil
  | @pair stack depth x y inner rest push inside pop after ihInside ihAfter =>
    obtain ⟨t, k, hx, hpushed⟩ := s.exists_feed_of_pushesAt push
    obtain ⟨v, l, hy, hpopped⟩ := (t.feedAll inner).1.exists_feed_of_popsAt pop
    obtain ⟨htaint, hsymbolic⟩ : t.taintOn = s.taintOn ∧ t.symbolicOn = s.symbolicOn := by
      simpa only [hx] using s.switches_feed x
    obtain ⟨htaintInner, hsymbolicInner⟩ := t.switches_feedAll inner
    obtain ⟨htaintPop, hsymbolicPop⟩ : v.taintOn = (t.feedAll inner).1.taintOn ∧
        v.symbolicOn = (t.feedAll inner).1.symbolicOn := by
      simpa only [hy] using (t.feedAll inner).1.switches_feed y
    -- what is inside the pair spares its slot, so the pop finds there what the push has stored
    have hsame : ∀ c ∈ (Location.memory (stack - 8) 8).cells, t.SameMarks (t.feedAll inner).1 c := by
      intro c hc
      obtain ⟨_, _, rfl⟩ := List.mem_map.1 hc
      exact t.sameMarks_of_balanced inside (spared_of_mem_slot hc (Nat.lt_of_succ_lt hdepth))
    have hmarks := hpopped.eq_of_sameMarks hpushed (htaintInner.trans htaint) (hsymbolicInner.trans hsymbolic) hsame
    have hinside := ihInside t (Nat.lt_of_succ_lt hdepth)
    have hafter := ihAfter v hdepth
    rw [htaint, hsymbolic] at hinside
    rw [htaintPop, htaintInner, htaint, hsymbolicPop, hsymbolicInner, hsymbolic] at hafter
    rw [s.feedAll_pair hx hy, List.cons_append, List.cons_append, List.zip_cons_cons,
      List.zip_append (t.length_feedAll inner).symm, List.zip_cons_cons]
    exact .pair ⟨⟨_, push⟩, ⟨_, pop⟩, k, l, rfl, rfl, hmarks⟩ hinside hafter

/-- **Marks follow the stack.** Pushes and pops into registers, balanced and nested no deeper than there are slots, fall
into nested pairs such that the record of each pop is tainted iff the record of its push is while taint is on, and
symbolic iff that is while the symbolic side is on. -/
theorem pop_mirrors_push {w : DyckWord} {inputs : List (Instruction × RegisterFile)}
    (h : StackRun stack w.toList inputs)
    (hdepth : ∀ steps, steps <+: w.toList → steps.count .U < steps.count .D + 2 ^ 61) :
    Nested (Mirrors s.taintOn s.symbolicOn) (inputs.zip (s.feedAll inputs).2) := by
  have hbalanced : Balanced stack (2 ^ 61 - 1) inputs :=
    balanced_of_stackRun h fun steps hsteps => Nat.le_of_lt_succ (hdepth steps hsteps)
  exact s.nested_of_balanced (by decide) hbalanced

/-- Two pushes across zero and the pops of them: the taint of the first comes back last, although the pop in between has
cleaned the register that it came from. -/
theorem pop_mirrors_push_across_zero :
    let s : Shadow := addSource {} (.register (.general 7)) "rdi"
    let input (opcode : UInt8) (stack : UInt64) : Instruction × RegisterFile :=
      ({ address := 0x1000, thread := 1, opcode := [opcode] }, fun r => if r = .rsp then some stack else none)
    let inputs := [input 0x57 8, input 0x56 0, input 0x5f (0 - 8), input 0x58 0]
    Nested (Mirrors true false) (inputs.zip (s.feedAll inputs).2) ∧
      (s.feedAll inputs).2.map (Option.map (·.tainted)) = [some true, some false, some false, some true] := by
  intro s input inputs
  let w : DyckWord := (0 : DyckWord).nest.nest
  have hrun : StackRun 8 w.toList inputs :=
    .push ⟨⟨.push, [.register ⟨.qword, 7⟩], [], 1⟩, by decide +kernel, rfl, rfl⟩ <|
    .push ⟨⟨.push, [.register ⟨.qword, 6⟩], [], 1⟩, by decide +kernel, rfl, rfl⟩ <|
    .pop ⟨⟨.pop, [.register ⟨.qword, 7⟩], [], 1⟩, ⟨.qword, 7⟩, by decide +kernel, rfl, rfl, rfl⟩ <|
    .pop ⟨⟨.pop, [.register ⟨.qword, 0⟩], [], 1⟩, ⟨.qword, 0⟩, by decide +kernel, rfl, rfl, rfl⟩ .nil
  have hdepth : ∀ steps, steps <+: w.toList → steps.count .U < steps.count .D + 2 ^ 61 := by
    intro steps hsteps
    have hlength : steps.length ≤ 4 := hsteps.length_le
    have hcount : steps.count .U ≤ steps.length := List.count_le_length
    omega
  exact ⟨s.pop_mirrors_push hrun hdepth, by decide +kernel⟩

end Shadow

end TaintReplay
