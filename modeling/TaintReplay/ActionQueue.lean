import TaintReplay.Text.Hex

/-!
# The queue of pending actions

An action waits for the next time execution reaches its address. All addresses share one queue: `register` appends,
`take?` removes the first action of an address, and `putBack` returns an action to the front, where it stays the first
of its address. `waiting` is the queue of one address; `waiting_register`, `waiting_of_take?` and `waiting_putBack` say
what happens to it.
-/

namespace TaintReplay

/-- An action of type `α` that waits for execution to reach an address. -/
structure PendingAction (α : Type) where
  address : UInt64
  action : α
  /-- Has the user a breakpoint at the address too? Then it stays and execution stops there. -/
  keepsBreakpoint : Bool
  deriving Repr

def PendingAction.render {α : Type} (a : PendingAction α) : String :=
  "PendingAction \x7b address: " ++ Text.address a.address.toNat ++ ", ignore_breakpoint: " ++
    (if a.keepsBreakpoint then "true" else "false") ++ " \x7d"

structure ActionQueue (α : Type) where
  actions : List (PendingAction α) := []
  deriving Repr

namespace ActionQueue

variable {α : Type}

def register (q : ActionQueue α) (a : PendingAction α) : ActionQueue α := ⟨q.actions ++ [a]⟩

/-- The first action of an address, and the queue without it. -/
def take? (q : ActionQueue α) (address : UInt64) : Option (PendingAction α × ActionQueue α) :=
  match q.actions.find? (·.address == address) with
  | some a => some (a, ⟨q.actions.eraseP (·.address == address)⟩)
  | none => none

def putBack (q : ActionQueue α) (a : PendingAction α) : ActionQueue α := ⟨a :: q.actions⟩

/-- Does an action wait for the address? -/
def contains (q : ActionQueue α) (address : UInt64) : Bool := q.actions.any (·.address == address)

def size (q : ActionQueue α) : Nat := q.actions.length

def isEmpty (q : ActionQueue α) : Bool := q.actions.isEmpty

/-- The actions that wait for one address, the oldest first. -/
def waiting (q : ActionQueue α) (address : UInt64) : List (PendingAction α) :=
  q.actions.filter (·.address == address)

def render (q : ActionQueue α) : String :=
  "PendingActions \x7b actions: [" ++ String.intercalate ", " (q.actions.map (·.render)) ++ "] \x7d"

theorem waiting_register (q : ActionQueue α) (a : PendingAction α) (address : UInt64) :
    (q.register a).waiting address = q.waiting address ++ if a.address = address then [a] else [] := by
  by_cases h : a.address = address <;> simp [register, waiting, h]

theorem waiting_putBack (q : ActionQueue α) (a : PendingAction α) (address : UInt64) :
    (q.putBack a).waiting address = (if a.address = address then [a] else []) ++ q.waiting address := by
  by_cases h : a.address = address <;> simp [putBack, waiting, h]

/-- Taking an action for an address takes the oldest one that waits there, and touches no other address. -/
theorem waiting_of_take? {q rest : ActionQueue α} {a : PendingAction α} {address : UInt64}
    (h : q.take? address = some (a, rest)) :
    a.address = address ∧ q.waiting address = a :: rest.waiting address ∧
      ∀ other, other ≠ address → rest.waiting other = q.waiting other := by
  unfold take? at h
  split at h
  · rename_i found hfound
    obtain ⟨rfl, rfl⟩ := Prod.mk.inj (Option.some.inj h)
    obtain ⟨ha, before, behind, hq, hbefore⟩ := List.find?_eq_some_iff_append.1 hfound
    have haddress : found.address = address := by simpa using ha
    have hnone : ∀ b ∈ before, ¬(b.address == address) = true := by simpa using hbefore
    have herase : q.actions.eraseP (·.address == address) = before ++ behind := by
      rw [hq, List.eraseP_append_right _ hnone]
      simp [haddress]
    have hnil : before.filter (·.address == address) = [] := List.filter_eq_nil_iff.2 hnone
    refine ⟨haddress, ?_, fun other hother => ?_⟩
    · unfold waiting
      rw [herase, hq]
      simp [hnil, haddress]
    · unfold waiting
      rw [herase, hq]
      simp [haddress, hother.symm]
  · cases h

/-- An action that is put back where it was taken is in its place again. -/
theorem waiting_putBack_of_take? {q rest : ActionQueue α} {a : PendingAction α} {address : UInt64}
    (h : q.take? address = some (a, rest)) (other : UInt64) : (rest.putBack a).waiting other = q.waiting other := by
  obtain ⟨ha, hwaiting, hothers⟩ := waiting_of_take? h
  rw [waiting_putBack, ha]
  split
  · rename_i hother
    rw [← hother, hwaiting]
    rfl
  · rename_i hother
    exact hothers other (Ne.symm hother)

theorem waiting_eq_nil_of_take? {q : ActionQueue α} {address : UInt64} (h : q.take? address = none) :
    q.waiting address = [] := by
  unfold take? at h
  split at h
  · cases h
  · rename_i hnone
    exact List.filter_eq_nil_iff.2 (List.find?_eq_none.1 hnone)

end ActionQueue

end TaintReplay
