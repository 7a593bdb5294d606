import TaintReplay.Proofs.ActionQueue
import TaintReplay.Proofs.Session.Pending

/-!
# Actions fire in turn

Whatever a session is given (`Session.Input`), only three things touch the actions that wait: a start forgets them all,
a command that queues an action puts it behind those of its address, and a breakpoint fires the first action of its
address. A `Ledger` writes this down. It hands a `Ticket` to every action that is queued, numbered by the input that
queued it, and keeps the tickets in a line for each address. The lines are the queue of the session
(`Ledger.Tallies.after`), and the numbers grow along each of them (`Ledger.Numbered.after`), so the action that fires is
the oldest one. One that owns its breakpoint has left all lines when it has fired (`Ledger.Gone.after`), and one that
keeps a breakpoint of the user stays the first in its line until the next start (`Ledger.Leads.after`).
-/

namespace TaintReplay

namespace Session

variable {α ε η : Type}

/-- What a session is given: events, commands, and changes of its analysis and its debugger from outside. -/
inductive Input (α ε η : Type) where
  | event (e : Event)
  | restart
  | register (a : PendingAction α)
  | breakAndRun (address : UInt64) (action : α)
  | taintRegister (name : String)
  | taintMemory (start : UInt64) (length : Nat)
  | reanalyze
  | trace (pc thread : UInt64)
  | enableStepTrace
  | change (analysis : ε) (debugger : η)

/-- Does the input begin a new session? -/
def Input.Restarts : Input α ε η → Prop
  | .event .processStart | .restart => True
  | _ => False

/-- An action that waits, with the number of the input that queued it. -/
structure Ticket (α : Type) where
  number : Nat
  action : PendingAction α

/-- A session with tickets for the actions that wait, in a line for each address. -/
structure Ledger (α ε η : Type) where
  session : Session α ε η
  /-- How many inputs there have been. -/
  inputs : Nat := 0
  line : UInt64 → List (Ticket α) := fun _ => []

namespace Ledger

variable {l : Ledger α ε η}

/-- The lines when one more action is queued, behind those of its address. -/
def queue (l : Ledger α ε η) (a : PendingAction α) : UInt64 → List (Ticket α) :=
  Function.update l.line a.address (l.line a.address ++ [⟨l.inputs, a⟩])

/-- The actions in the lines are those that wait in the session. -/
def Tallies (l : Ledger α ε η) : Prop :=
  ∀ address, (l.line address).map Ticket.action = l.session.progress.pending.waiting address

theorem Tallies.head?_line (h : l.Tallies) (pc : UInt64) :
    (l.line pc).head?.map Ticket.action = (l.session.progress.pending.take? pc).map Prod.fst := by
  rw [← ActionQueue.head?_waiting, ← h, List.head?_map]

theorem Tallies.queue (h : l.Tallies) (a : PendingAction α) (address : UInt64) :
    (l.queue a address).map Ticket.action = (l.session.progress.pending.register a).waiting address := by
  rw [ActionQueue.waiting_register_eq_update, Ledger.queue, Function.update_apply, Function.update_apply]
  split
  · simp [h a.address]
  · exact h address

/-- The numbers along the line of an address. -/
def numbers (l : Ledger α ε η) (address : UInt64) : List Nat := (l.line address).map Ticket.number

/-- Every number has been given to one action, and they grow along each line. -/
structure Numbered (l : Ledger α ε η) : Prop where
  issued : ∀ address, ∀ n ∈ l.numbers address, n < l.inputs
  ordered : ∀ address, (l.numbers address).Pairwise (· < ·)
  apart : ∀ a b n, n ∈ l.numbers a → n ∈ l.numbers b → a = b

/-- The action with the number has left the lines. -/
def Gone (l : Ledger α ε η) (n : Nat) : Prop := n < l.inputs ∧ ∀ address, n ∉ l.numbers address

/-- The action with the number keeps a breakpoint of the user, and is the first in the line of an address. -/
def Leads (l : Ledger α ε η) (pc : UInt64) (n : Nat) : Prop :=
  ∃ t others, l.line pc = t :: others ∧ t.number = n ∧ t.action.keepsBreakpoint = true

theorem Leads.queue {pc : UInt64} {n : Nat} (h : l.Leads pc n) (a : PendingAction α) :
    ∃ t others, l.queue a pc = t :: others ∧ t.number = n ∧ t.action.keepsBreakpoint = true := by
  obtain ⟨t, others, hline, hn, hk⟩ := h
  unfold Ledger.queue
  rw [Function.update_apply]
  split
  · rename_i hpc
    exact ⟨t, others ++ [⟨l.inputs, a⟩], by simp [← hpc, hline], hn, hk⟩
  · exact ⟨t, others, hline, hn, hk⟩

section Hit

variable [Action α ε η]

/-- A line when its breakpoint is hit. The first action fires; it stays if it keeps the breakpoint, and else it goes. -/
def hit (l : Ledger α ε η) (pc : UInt64) : List (Ticket α) :=
  match l.line pc with
  | [] => []
  | t :: others =>
    if t.action.keepsBreakpoint then { t with action := (l.session.fire t.action pc).2 } :: others else others

theorem numbers_hit_sublist (l : Ledger α ε η) (pc : UInt64) :
    ((l.hit pc).map Ticket.number).Sublist (l.numbers pc) := by
  unfold hit numbers
  split
  · simp
  · rename_i t others hline
    rw [hline]
    split <;> simp

end Hit

end Ledger

section Accept

variable [Analyzer ε] [Debugger η] [Action α ε η]

def accept (s : Session α ε η) : Input α ε η → Session α ε η
  | .event e => s.handle e
  | .restart => s.restart
  | .register a => s.register a
  | .breakAndRun address action => s.breakAndRun address action
  | .taintRegister name =>
    match s.taintRegister name with
    | .ok (s, _) => s
    | .error _ => s
  | .taintMemory start length => (s.taintMemory start length).1
  | .reanalyze => s.reanalyze.1
  | .trace pc thread => (s.trace pc thread).1
  | .enableStepTrace => s.enableStepTrace
  | .change analysis debugger => { s with analysis, debugger }

theorem pending_accept_taintRegister (s : Session α ε η) (name : String) :
    (s.accept (.taintRegister name)).progress.pending = s.progress.pending := by
  unfold accept taintRegister
  dsimp only
  cases Analyzer.taintRegister s.analysis name with
  | ok analysis => exact pending_reanalyze _
  | error cause => rfl

namespace Ledger

variable {l : Ledger α ε η}

/-- The lines after an input. -/
def lineAfter (l : Ledger α ε η) : Input α ε η → UInt64 → List (Ticket α)
  | .event .processStart | .restart => fun _ => []
  | .event (.breakpoint _ pc) => Function.update l.line pc (l.hit pc)
  | .register a => l.queue a
  | .breakAndRun address action => l.queue ⟨address, action, Debugger.hasBreakpoint l.session.debugger address⟩
  | _ => l.line

def enter (l : Ledger α ε η) (i : Input α ε η) : Ledger α ε η :=
  { session := l.session.accept i, inputs := l.inputs + 1, line := l.lineAfter i }

def after (l : Ledger α ε η) (inputs : List (Input α ε η)) : Ledger α ε η := inputs.foldl enter l

/-- The hit of a breakpoint does to the queue what it does to the line. -/
theorem Tallies.hit (h : l.Tallies) (thread pc address : UInt64) :
    (Function.update l.line pc (l.hit pc) address).map Ticket.action =
      (l.session.onBreakpoint thread pc).progress.pending.waiting address := by
  cases htake : l.session.progress.pending.take? pc with
  | none =>
    have hnil : l.line pc = [] := by simpa [htake] using h.head?_line pc
    have hkept : Function.update l.line pc (l.hit pc) = l.line := by
      have hhit : l.hit pc = l.line pc := by simp [Ledger.hit, hnil]
      rw [hhit, Function.update_eq_self]
    rw [onBreakpoint_of_take?_eq_none _ htake, hkept]
    exact h address
  | some taken =>
    obtain ⟨a, rest⟩ := taken
    have haddress : a.address = pc := (ActionQueue.waiting_of_take? htake).1
    have hrest := ActionQueue.waiting_rest_of_take? htake
    have hfired : (l.session.fire a pc).2.address = pc := haddress
    cases hline : l.line pc with
    | nil =>
      have hhead := h.head?_line pc
      simp [hline, htake] at hhead
    | cons t others =>
      have hhead := h.head?_line pc
      have htail : (l.session.progress.pending.waiting pc).tail = others.map Ticket.action := by
        rw [← h, hline]
        rfl
      simp only [hline, htake, List.head?_cons, Option.map_some, Option.some.injEq] at hhead
      rw [onBreakpoint_of_take? _ htake, pending_fireAt, Function.update_apply]
      by_cases hpc : address = pc
      · subst hpc
        cases hk : a.keepsBreakpoint with
        | true => simp [Ledger.hit, hline, hhead, hk, ActionQueue.waiting_putBack, hrest, htail, hfired]
        | false => simp [Ledger.hit, hline, hhead, hk, hrest, htail]
      · have hother : rest.waiting address = l.session.progress.pending.waiting address := by
          simp [hrest, hpc]
        cases hk : a.keepsBreakpoint with
        | true => simp [hpc, ActionQueue.waiting_putBack, hother, h address, hfired, Ne.symm hpc]
        | false => simp [hpc, hother, h address]

theorem Tallies.enter (h : l.Tallies) (i : Input α ε η) : (l.enter i).Tallies := by
  intro address
  -- what neither queues nor forgets actions leaves lines and queue alone
  have hkept {t : Session α ε η} (ht : t.progress.pending = l.session.progress.pending) :
      (l.line address).map Ticket.action = t.progress.pending.waiting address := by
    rw [ht]
    exact h address
  cases i with
  | event e =>
    cases e with
    | processStart => rfl
    | processExit => exact hkept (pending_inform _ _ _)
    | stepInto thread pc => exact hkept (pending_onStep _ thread pc true)
    | stepOver thread pc => exact hkept (pending_onStep _ thread pc false)
    | trace thread pc => exact hkept (pending_onTrace _ thread pc)
    | breakpoint thread pc => exact h.hit thread pc address
  | restart => rfl
  | register a => exact h.queue a address
  | breakAndRun pc action => exact h.queue _ address
  | taintRegister name => exact hkept (pending_accept_taintRegister _ name)
  | taintMemory start length => exact hkept (pending_reanalyze _)
  | reanalyze => exact hkept (pending_reanalyze _)
  | trace pc thread => exact hkept (pending_trace _ pc thread)
  | enableStepTrace | change _ _ => exact hkept rfl

theorem Tallies.after (inputs : List (Input α ε η)) {l : Ledger α ε η} (h : l.Tallies) : (l.after inputs).Tallies := by
  induction inputs generalizing l with
  | nil => exact h
  | cons i inputs ih => exact ih (h.enter i)

/-! ## Numbers -/

/-- Numbers leave the lines, or a new one comes to the end of a line. -/
theorem numbers_enter (l : Ledger α ε η) (i : Input α ε η) :
    (∀ address, ((l.enter i).numbers address).Sublist (l.numbers address)) ∨
      ∃ pc, (l.enter i).numbers = Function.update l.numbers pc (l.numbers pc ++ [l.inputs]) := by
  have hqueue (a : PendingAction α) : (fun address => (l.queue a address).map Ticket.number) =
      Function.update l.numbers a.address (l.numbers a.address ++ [l.inputs]) := by
    funext address
    unfold queue
    rw [Function.update_apply, Function.update_apply]
    split <;> simp [numbers]
  cases i with
  | event e =>
    refine .inl fun address => ?_
    cases e with
    | processStart => exact List.nil_sublist _
    | breakpoint thread pc =>
      show ((Function.update l.line pc (l.hit pc) address).map Ticket.number).Sublist _
      rw [Function.update_apply]
      split
      · rename_i hpc
        rw [hpc]
        exact l.numbers_hit_sublist pc
      · exact .refl _
    | _ => exact .refl _
  | restart => exact .inl fun _ => List.nil_sublist _
  | register a => exact .inr ⟨_, hqueue a⟩
  | breakAndRun pc action => exact .inr ⟨_, hqueue _⟩
  | _ => exact .inl fun _ => .refl _

theorem Numbered.enter (h : l.Numbered) (i : Input α ε η) : (l.enter i).Numbered := by
  have hinputs : (l.enter i).inputs = l.inputs + 1 := rfl
  rcases l.numbers_enter i with hsub | ⟨pc, hnew⟩
  · refine ⟨fun address n hn => ?_, fun address => (h.ordered address).sublist (hsub address), fun a b n ha hb => ?_⟩
    · exact Nat.lt_succ_of_lt (h.issued address n ((hsub address).subset hn))
    · exact h.apart a b n ((hsub a).subset ha) ((hsub b).subset hb)
  · have hmem (address : UInt64) (n : Nat) : n ∈ (l.enter i).numbers address ↔
        n ∈ l.numbers address ∨ address = pc ∧ n = l.inputs := by
      rw [hnew, Function.update_apply]
      split <;> simp [*]
    refine ⟨fun address n hn => ?_, fun address => ?_, fun a b n ha hb => ?_⟩
    · rcases (hmem address n).1 hn with hn | ⟨-, rfl⟩
      · have := h.issued address n hn
        omega
      · omega
    · rw [hnew, Function.update_apply]
      split
      · rw [List.pairwise_append]
        refine ⟨h.ordered pc, List.pairwise_singleton _ _, ?_⟩
        intro n hn m hm
        rw [List.mem_singleton] at hm
        have := h.issued pc n hn
        omega
      · exact h.ordered address
    · rcases (hmem a n).1 ha with hold | ⟨rfl, rfl⟩
      · rcases (hmem b n).1 hb with hold' | ⟨-, rfl⟩
        · exact h.apart a b n hold hold'
        · exact absurd (h.issued a _ hold) (Nat.lt_irrefl _)
      · rcases (hmem b l.inputs).1 hb with hold | ⟨rfl, -⟩
        · exact absurd (h.issued b _ hold) (Nat.lt_irrefl _)
        · rfl

theorem Numbered.after (inputs : List (Input α ε η)) {l : Ledger α ε η} (h : l.Numbered) :
    (l.after inputs).Numbered := by
  induction inputs generalizing l with
  | nil => exact h
  | cons i inputs ih => exact ih (h.enter i)

/-! ## What has fired -/

theorem Gone.enter {n : Nat} (h : l.Gone n) (i : Input α ε η) : (l.enter i).Gone n := by
  obtain ⟨hissued, hgone⟩ := h
  refine ⟨Nat.lt_succ_of_lt hissued, fun address hn => ?_⟩
  rcases l.numbers_enter i with hsub | ⟨pc, hnew⟩
  · exact hgone address ((hsub address).subset hn)
  · rw [hnew, Function.update_apply] at hn
    split at hn
    · rcases List.mem_append.1 hn with hn | hn
      · exact hgone pc hn
      · rw [List.mem_singleton] at hn
        omega
    · exact hgone address hn

/-- What has left the lines does not come back. -/
theorem Gone.after {n : Nat} (inputs : List (Input α ε η)) {l : Ledger α ε η} (h : l.Gone n) :
    (l.after inputs).Gone n := by
  induction inputs generalizing l with
  | nil => exact h
  | cons i inputs ih => exact ih (h.enter i)

theorem Leads.enter {pc : UInt64} {n : Nat} (h : l.Leads pc n) {i : Input α ε η} (hi : ¬i.Restarts) :
    (l.enter i).Leads pc n := by
  cases i with
  | event e =>
    cases e with
    | processStart => exact absurd trivial hi
    | breakpoint thread hitPc =>
      obtain ⟨t, others, hline, hn, hk⟩ := h
      by_cases hpc : pc = hitPc
      · subst hpc
        refine ⟨{ t with action := (l.session.fire t.action pc).2 }, others, ?_, hn, hk⟩
        show Function.update l.line pc (l.hit pc) pc = _
        simp [hit, hline, hk]
      · refine ⟨t, others, ?_, hn, hk⟩
        show Function.update l.line hitPc (l.hit hitPc) pc = _
        rw [Function.update_of_ne hpc, hline]
    | _ => exact h
  | restart => exact absurd trivial hi
  | register a => exact h.queue a
  | breakAndRun address action => exact h.queue _
  | _ => exact h

/-- What keeps its breakpoint stays the first of its line until the next start. -/
theorem Leads.after {pc : UInt64} {n : Nat} (inputs : List (Input α ε η)) {l : Ledger α ε η} (h : l.Leads pc n)
    (hinputs : ∀ i ∈ inputs, ¬i.Restarts) : (l.after inputs).Leads pc n := by
  induction inputs generalizing l with
  | nil => exact h
  | cons i inputs ih =>
    rw [List.forall_mem_cons] at hinputs
    exact ih (h.enter hinputs.1) hinputs.2

end Ledger

end Accept

end Session

end TaintReplay
