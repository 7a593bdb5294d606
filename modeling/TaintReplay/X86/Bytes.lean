/-!
# Reading bytes off the front of a list

A `Reader` takes bytes off the front of a list and fails where they run out. `Reader.Local` says that a reader looks
only at the bytes it takes: what follows them does not matter. The primitive readers are local, and sequencing keeps
locality (`local_bind`), so everything built from them is.
-/

namespace TaintReplay.X86

/-- Takes bytes off the front of a list, or fails. -/
abbrev Reader := StateT (List UInt8) Option

namespace Reader

/-- A reader that succeeds does so on the bytes it took, whatever follows them. -/
def Local {α : Type} (r : Reader α) : Prop :=
  ∀ bytes x rest, r.run bytes = some (x, rest) →
    ∃ taken, bytes = taken ++ rest ∧ ∀ more, r.run (taken ++ more) = some (x, more)

def byte : Reader UInt8 := fun
  | [] => none
  | b :: rest => some (b, rest)

/-- An unsigned number of `n` bytes, the lowest first. -/
def unsigned : Nat → Reader Nat
  | 0 => pure 0
  | n + 1 => do
    let low ← byte
    let high ← unsigned n
    pure (low.toNat + 256 * high)

/-- A signed number of `n` bytes, the lowest first. -/
def signed (n : Nat) : Reader Int := do
  let value ← unsigned n
  pure (Int.bmod value (Nat.pow 2 (8 * n)))

variable {α β : Type}

theorem local_pure (x : α) : Local (pure x : Reader α) := by
  intro bytes y rest h
  obtain ⟨rfl, rfl⟩ : x = y ∧ bytes = rest := by simpa [StateT.run_pure] using h
  exact ⟨[], by simp, fun more => rfl⟩

theorem local_fail : Local (failure : Reader α) := by
  intro bytes y rest h
  simp [StateT.run, failure, StateT.failure] at h

theorem local_byte : Local byte := by
  intro bytes y rest h
  cases bytes with
  | nil => simp [StateT.run, byte] at h
  | cons b tail =>
    obtain ⟨rfl, rfl⟩ : b = y ∧ tail = rest := by simpa [StateT.run, byte] using h
    exact ⟨[b], by simp, fun more => rfl⟩

/-- Sequencing keeps locality. -/
theorem local_bind {r : Reader α} {f : α → Reader β} (hr : Local r) (hf : ∀ x, Local (f x)) : Local (r >>= f) := by
  intro bytes y rest h
  simp only [StateT.run_bind, Option.bind_eq_bind, Option.bind_eq_some_iff] at h
  obtain ⟨⟨x, middle⟩, h₁, h₂⟩ := h
  obtain ⟨first, rfl, e₁⟩ := hr _ _ _ h₁
  obtain ⟨second, rfl, e₂⟩ := hf x _ _ _ h₂
  refine ⟨first ++ second, by simp, fun more => ?_⟩
  simp only [StateT.run_bind, Option.bind_eq_bind, List.append_assoc, e₁, Option.bind_some, e₂]

theorem local_unsigned (n : Nat) : Local (unsigned n) := by
  induction n with
  | zero => exact local_pure 0
  | succ n ih => exact local_bind local_byte fun _ => local_bind ih fun _ => local_pure _

theorem local_signed (n : Nat) : Local (signed n) := local_bind (local_unsigned n) fun _ => local_pure _

end Reader

end TaintReplay.X86
