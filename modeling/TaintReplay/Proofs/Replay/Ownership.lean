import TaintReplay.Proofs.Replay.History
import TaintReplay.Proofs.Replay.Trap

/-!
# Who owns a breakpoint

An action that finds no breakpoint when it is queued owns the one that is set for it. At most one of the actions that
wait at an address owns its breakpoint, and then the breakpoint is there (`Trap.Owned`). An action that finds a
breakpoint counts it as the user's. It may be an owner's though, and the owner takes it away when it fires
(`Trap.strips`); then the other action waits where nothing breaks (`Trap.Stranded`). That is the only way to get there,
and `hasBreakpoint_after_iff` says for every state of a run which actions can still fire.
-/

namespace TaintReplay

namespace Trap

variable {α : Type} {t : Trap α}

/-- How many of the actions that wait own the breakpoint. -/
def owners (t : Trap α) : Nat := t.waiting.countP fun a => !a.keepsBreakpoint

/-- At most one action owns the breakpoint, and none where there is no breakpoint. -/
def Owned (t : Trap α) : Prop := t.owners ≤ t.breaks.toNat

/-- Actions wait where nothing breaks. -/
def Stranded (t : Trap α) : Prop := t.waiting ≠ [] ∧ t.breaks = false

/-- The step takes the breakpoint away together with the action that owns it, while other actions wait for it. -/
def strips (t : Trap α) (address : UInt64) : Step → Prop
  | .event (.breakpoint _ pc) =>
    pc = address ∧ ∃ a b waiting, t.waiting = a :: b :: waiting ∧ a.keepsBreakpoint = false
  | _ => False

/-- The step sets a breakpoint at the address, or forgets the actions that wait there. -/
def mends (address : UInt64) : Step → Prop
  | .event .processStart => True
  | .setBreakpoint a => a = address
  | .breakAndTaint a _ => a = address
  | _ => False

/-! ## Owners -/

/-- An owner has its breakpoint. -/
theorem Owned.breaks {a : PendingAction α} (h : t.Owned) (ha : a ∈ t.waiting) (hk : a.keepsBreakpoint = false) :
    t.breaks = true := by
  have hpos : 0 < t.owners := List.countP_pos_iff.2 ⟨a, ha, by rw [hk]; rfl⟩
  unfold Owned at h
  cases hb : t.breaks with
  | true => rfl
  | false =>
    rw [hb, Bool.toNat_false] at h
    omega

theorem Owned.hit (h : t.Owned) : t.hit.Owned := by
  unfold Trap.hit
  cases hw : t.waiting with
  | nil => exact h
  | cons a waiting =>
    dsimp only
    split
    · exact h
    · rename_i hk
      have howners : t.owners = waiting.countP (fun a => !a.keepsBreakpoint) + 1 := by
        rw [owners, hw, List.countP_cons_of_pos]
        simpa using hk
      -- the one that fires was the only owner, so none waits where there is no breakpoint any more
      have hone := Bool.toNat_le t.breaks
      unfold Owned at h ⊢
      show waiting.countP _ ≤ 0
      omega

theorem Owned.queue (h : t.Owned) (address : UInt64) (action : α) : (t.queue address action).Owned := by
  unfold Owned owners Trap.queue at *
  rw [List.countP_append, List.countP_singleton]
  cases hb : t.breaks with
  | true => simpa [hb] using h
  | false => simpa [hb] using h

theorem Owned.apply {t : Trap RegisterSource} (h : t.Owned) (address : UInt64) (step : Step) :
    (t.apply address step).Owned := by
  unfold Trap.apply
  split
  · exact Nat.zero_le _
  · split
    · exact h.hit
    · exact h
  · split
    · exact Nat.le_trans h (Bool.toNat_le _)
    · exact h
  · split
    · exact h.queue address _
    · exact h
  · exact h

/-- A hit that takes the breakpoint away takes its owner from the queue. -/
theorem exists_owner_of_hit (h : t.breaks = true) (ht : t.hit.breaks = false) :
    ∃ a, a.keepsBreakpoint = false ∧ t.waiting = a :: t.hit.waiting := by
  unfold Trap.hit at ht ⊢
  cases hw : t.waiting with
  | nil => simp [hw, h] at ht
  | cons a waiting =>
    cases hk : a.keepsBreakpoint with
    | true => simp [hw, hk, h] at ht
    | false => exact ⟨a, hk, by simp [hk]⟩

/-- A breakpoint goes away only when it is hit, and with the action that owns it. -/
theorem exists_owner_of_apply {t : Trap RegisterSource} {address : UInt64} {step : Step} (h : t.breaks = true)
    (ht : (t.apply address step).breaks = false) :
    ∃ thread a, step = .event (.breakpoint thread address) ∧ a.keepsBreakpoint = false ∧
      t.waiting = a :: (t.apply address step).waiting := by
  cases step with
  | event e =>
    cases e with
    | breakpoint thread pc =>
      by_cases hpc : pc = address
      · subst hpc
        have hhit : t.apply pc (.event (.breakpoint thread pc)) = t.hit := if_pos rfl
        rw [hhit] at ht ⊢
        obtain ⟨a, hk, hwaiting⟩ := exists_owner_of_hit h ht
        exact ⟨thread, a, rfl, hk, hwaiting⟩
      · simp [apply, hpc, h] at ht
    | _ => simp [apply, h] at ht
  | setBreakpoint a => by_cases ha : a = address <;> simp [apply, ha, h] at ht
  | breakAndTaint a register => by_cases ha : a = address <;> simp [apply, Trap.queue, ha, h] at ht
  | _ => simp [apply, h] at ht

/-! ## Actions that wait in vain -/

/-- The hit of a breakpoint leaves actions in vain iff it strips them. What has no breakpoint has no owner to fire. -/
theorem stranded_hit_iff (h : t.Owned) :
    t.hit.Stranded ↔ (∃ a b waiting, t.waiting = a :: b :: waiting ∧ a.keepsBreakpoint = false) ∨ t.Stranded := by
  unfold Trap.hit
  cases hw : t.waiting with
  | nil => simp
  | cons a waiting =>
    cases hk : a.keepsBreakpoint with
    | true => simp [hk]
    | false =>
      have hbreaks : t.breaks = true := h.breaks (hw ▸ List.mem_cons_self) hk
      cases waiting <;> simp [Stranded, hk, hbreaks]

/-- After a step actions wait in vain iff it has stripped them, or they did so before and it has not mended that. -/
theorem stranded_apply_iff {t : Trap RegisterSource} (h : t.Owned) (address : UInt64) (step : Step) :
    (t.apply address step).Stranded ↔ t.strips address step ∨ ¬mends address step ∧ t.Stranded := by
  cases step with
  | event e =>
    cases e with
    | processStart => simp [apply, strips, mends, Stranded]
    | breakpoint thread pc =>
      by_cases hpc : pc = address
      · simpa [apply, strips, mends, hpc] using stranded_hit_iff h
      · simp [apply, strips, mends, hpc]
    | _ => simp [apply, strips, mends]
  | setBreakpoint a =>
    by_cases ha : a = address <;> simp [apply, strips, mends, Stranded, ha]
  | breakAndTaint a register =>
    by_cases ha : a = address <;> simp [apply, strips, mends, Stranded, Trap.queue, ha]
  | _ => simp [apply, strips, mends]

end Trap

namespace Replay

/-- Actions that wait at the address have lost its breakpoint in the run, and no step has mended that. -/
def Stripped (r : Replay) (address : UInt64) : List Step → Prop :=
  Since (fun before step => ((r.after before).trap address).strips address step) (Trap.mends address)

theorem stranded_after_iff (options : Options) (image : Image) (steps : List Step) (address : UInt64) :
    let r := start options image
    ((r.after steps).trap address).Owned ∧
      (((r.after steps).trap address).Stranded ↔ r.Stripped address steps) := by
  intro r
  induction steps using List.reverseRecOn with
  | nil => exact ⟨Nat.zero_le _, iff_of_false (fun hs => hs.1 rfl) not_since_nil⟩
  | append_singleton steps step ih =>
    obtain ⟨howned, hstranded⟩ := ih
    have hstripped : r.Stripped address (steps ++ [step]) ↔
        ((r.after steps).trap address).strips address step ∨ ¬Trap.mends address step ∧ r.Stripped address steps :=
      since_append_singleton steps step
    rw [after_append_singleton, trap_apply]
    refine ⟨howned.apply address step, ?_⟩
    rw [Trap.stranded_apply_iff howned, hstranded, hstripped]

/-- An action can fire as long as there is a breakpoint where it waits. In every state of a run an action that owns its
breakpoint has it, and an action of either kind has one iff it has not been `Stripped` of it: iff no action that owns
the breakpoint has fired while other actions waited at the address, or since then a breakpoint was set there. An action
that is queued finds a breakpoint or sets one, and a breakpoint goes away only with the action that owns it. -/
theorem hasBreakpoint_after_iff (options : Options) (image : Image) (steps : List Step) :
    let r := start options image
    let t := r.after steps
    (∀ a ∈ t.progress.pending.actions, (a.keepsBreakpoint = false → t.debugger.hasBreakpoint a.address = true) ∧
        (t.debugger.hasBreakpoint a.address = true ↔ ¬r.Stripped a.address steps)) ∧
      (∀ address register, (t.apply (.breakAndTaint address register)).debugger.hasBreakpoint address = true) ∧
      ∀ step address, t.debugger.hasBreakpoint address = true → (t.apply step).debugger.hasBreakpoint address = false →
        ∃ thread a, step = .event (.breakpoint thread address) ∧ a.keepsBreakpoint = false ∧
          t.progress.pending.waiting address = a :: (t.apply step).progress.pending.waiting address := by
  intro r t
  refine ⟨fun a ha => ?_, fun address register => ?_, fun step address h ht => ?_⟩
  · obtain ⟨howned, hstranded⟩ := stranded_after_iff options image steps a.address
    have hwaits : a ∈ (t.trap a.address).waiting := List.mem_filter.2 ⟨ha, beq_self_eq_true a.address⟩
    refine ⟨howned.breaks hwaits, ?_⟩
    rw [← hstranded]
    have hbreaks : (t.trap a.address).Stranded ↔ t.debugger.hasBreakpoint a.address = false :=
      and_iff_right (List.ne_nil_of_mem hwaits)
    rw [hbreaks, Bool.not_eq_false]
  · have hqueued : ((t.apply (.breakAndTaint address register)).trap address).breaks = true := by
      rw [trap_apply, Trap.apply, if_pos rfl]
      rfl
    exact hqueued
  · have happly := t.trap_apply address step
    have hgone : ((t.trap address).apply address step).breaks = false := by
      rw [← happly]
      exact ht
    have howner := Trap.exists_owner_of_apply h hgone
    rw [← happly] at howner
    exact howner

/-- Two actions are queued at one address. The second takes the breakpoint of the first for the user's, and is left
behind without one when the first fires. -/
theorem exists_pending_not_hasBreakpoint :
    let r := (start {} { segments := [⟨0x1000, #[0x48, 0x89, 0xf8, 0xc3], by decide⟩] }).after
      [.breakAndTaint 0x1000 "rdi", .breakAndTaint 0x1000 "rsi", .event (.breakpoint 1 0x1000)]
    ∃ a ∈ r.progress.pending.actions, r.debugger.hasBreakpoint a.address = false := by
  decide +kernel

end Replay

end TaintReplay
