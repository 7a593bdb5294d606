import TaintReplay.Proofs.Replay.Drive
import TaintReplay.Proofs.Replay.Ownership

/-!
# Breakpoints that stay

A breakpoint that no waiting action owns is `Trap.Held`. No step takes it away, and every action that is queued there
later counts it as the user's, so it is held for ever, and its hits neither move the process on nor take an action from
the queue (`stays_of_held`). There are two ways to such a breakpoint (`Trap.held_apply_iff`): the user sets one where no
action owns the breakpoint (`Replay.SetByUser`), or a start of the process forgets the action that owned it
(`Replay.Orphaned`). Every other breakpoint has its owner in the queue (`hasBreakpoint_iff_owned_set_or_orphaned`).
-/

namespace TaintReplay

namespace Trap

variable {α : Type} {t : Trap α}

/-- An action that waits owns the breakpoint. -/
def HasOwner (t : Trap α) : Prop := ∃ a ∈ t.waiting, a.keepsBreakpoint = false

/-- There is a breakpoint, and no action that waits owns it. -/
def Held (t : Trap α) : Prop := t.breaks = true ∧ ∀ a ∈ t.waiting, a.keepsBreakpoint = true

theorem not_hasOwner_iff : ¬t.HasOwner ↔ ∀ a ∈ t.waiting, a.keepsBreakpoint = true := by
  simp [HasOwner]

theorem Owned.breaks_iff (h : t.Owned) : t.breaks = true ↔ t.HasOwner ∨ t.Held := by
  constructor
  · intro hbreaks
    by_cases howner : t.HasOwner
    · exact .inl howner
    · exact .inr ⟨hbreaks, not_hasOwner_iff.1 howner⟩
  · rintro (⟨a, ha, hk⟩ | hheld)
    · exact h.breaks ha hk
    · exact hheld.1

theorem Held.owned (h : t.Held) : t.Owned := by
  have hnone : t.owners = 0 := List.countP_eq_zero.2 fun a ha => by simp [h.2 a ha]
  unfold Owned
  omega

theorem Held.hit (h : t.Held) : t.hit = t := by
  unfold Trap.hit
  split
  · rfl
  · rename_i a waiting hw
    have ha : a ∈ t.waiting := by simp [hw]
    rw [if_pos (h.2 a ha)]

theorem held_queue_iff (address : UInt64) (action : α) : (t.queue address action).Held ↔ t.Held := by
  unfold Held queue
  simp only [List.forall_mem_append, List.forall_mem_singleton, true_and]
  exact and_comm

/-- A hit that takes the breakpoint away leaves nothing that could be held, and it takes away none that is. -/
theorem held_hit_iff : t.hit.Held ↔ t.Held := by
  constructor
  · unfold Trap.hit
    split
    · exact id
    · split
      · exact id
      · exact fun h => nomatch h.1
  · intro h
    rw [h.hit]
    exact h

/-- A breakpoint is held after a step iff it was so before, or the user has set it where no action owned one, or the
process has started and the owner is forgotten. -/
theorem held_apply_iff {t : Trap RegisterSource} (h : t.Owned) (address : UInt64) (step : Step) :
    (t.apply address step).Held ↔ (step = .setBreakpoint address ∧ ¬t.HasOwner) ∨
      (step = .event .processStart ∧ t.HasOwner) ∨ t.Held := by
  cases step with
  | event e =>
    cases e with
    | processStart => simpa [apply, Held] using h.breaks_iff
    | breakpoint thread pc =>
      by_cases hpc : pc = address
      · simpa [apply, hpc] using held_hit_iff
      · simp [apply, hpc]
    | _ => simp [apply]
  | setBreakpoint a =>
    by_cases ha : a = address
    · simp [apply, ha, Held, not_hasOwner_iff]
    · simp [apply, ha]
  | breakAndTaint a register =>
    by_cases ha : a = address
    · simpa [apply, ha] using held_queue_iff address (⟨register⟩ : RegisterSource)
    · simp [apply, ha]
  | _ => simp [apply]

end Trap

namespace Replay

open Session

/-- Some step of the run has set a breakpoint at the address, where no action that waited owned one. -/
def SetByUser (r : Replay) (address : UInt64) : List Step → Prop :=
  Since (fun before step => step = .setBreakpoint address ∧ ¬((r.after before).trap address).HasOwner) fun _ => False

/-- Some start of the process in the run has forgotten an action that owned the breakpoint at the address. -/
def Orphaned (r : Replay) (address : UInt64) : List Step → Prop :=
  Since (fun before step => step = .event .processStart ∧ ((r.after before).trap address).HasOwner) fun _ => False

/-! ## Runs -/

theorem held_after_iff (options : Options) (image : Image) (steps : List Step) (address : UInt64) :
    let r := start options image
    ((r.after steps).trap address).Held ↔ r.SetByUser address steps ∨ r.Orphaned address steps := by
  intro r
  induction steps using List.reverseRecOn with
  | nil => exact iff_of_false (fun h => nomatch h.1) (not_or_intro not_since_nil not_since_nil)
  | append_singleton steps step ih =>
    have howned := (stranded_after_iff options image steps address).1
    unfold SetByUser Orphaned at ih ⊢
    rw [after_append_singleton, trap_apply, Trap.held_apply_iff howned, ih, since_append_singleton,
      since_append_singleton]
    tauto

/-- A breakpoint that is held stays so, whatever happens next. -/
theorem held_after {r : Replay} {address : UInt64} (h : (r.trap address).Held) (steps : List Step) :
    ((r.after steps).trap address).Held := by
  induction steps using List.reverseRecOn with
  | nil => exact h
  | append_singleton steps step ih =>
    rw [after_append_singleton, trap_apply, Trap.held_apply_iff ih.owned]
    exact .inr (.inr ih)

/-- The hit of a breakpoint that is held fires no action that owns it. -/
theorem springs_eq_false {r : Replay} {address : UInt64} (h : (r.trap address).Held) (thread : UInt64) :
    r.springs (.event (.breakpoint thread address)) = false := by
  have hkeeps : ∀ a ∈ r.progress.pending.waiting address, a.keepsBreakpoint = true := h.2
  unfold springs
  dsimp only
  cases hw : r.progress.pending.waiting address with
  | nil => rfl
  | cons a waiting =>
    rw [List.head?_cons, Option.any_some, hkeeps a (by rw [hw]; exact List.mem_cons_self)]
    rfl

/-- A breakpoint of the user is respected for ever. Where there is a breakpoint, and every action that waits keeps it,
no later step takes it away or queues an action that does not keep it, and no hit of it asks the debugger for anything,
lets stepping go on by itself or changes which actions wait there. -/
theorem stays_of_held (r : Replay) (address : UInt64) (hbreak : r.debugger.hasBreakpoint address = true)
    (hkeeps : ∀ a ∈ r.progress.pending.actions, a.address = address → a.keepsBreakpoint = true) (steps : List Step) :
    let t := r.after steps
    t.debugger.hasBreakpoint address = true ∧
      (∀ a ∈ t.progress.pending.actions, a.address = address → a.keepsBreakpoint = true) ∧
      ∀ thread, let u := t.apply (.event (.breakpoint thread address))
        u.debugger.requests = t.debugger.requests ∧ u.progress.autoContinue = false ∧
          u.progress.pending.waiting address = t.progress.pending.waiting address := by
  intro t
  have hr : (r.trap address).Held := by
    refine ⟨hbreak, fun a ha => ?_⟩
    obtain ⟨hmem, haddress⟩ := List.mem_filter.1 ha
    exact hkeeps a hmem (beq_iff_eq.1 haddress)
  have ht : (t.trap address).Held := held_after hr steps
  refine ⟨ht.1, fun a hmem haddress => ht.2 a (List.mem_filter.2 ⟨hmem, beq_iff_eq.2 haddress⟩), fun thread => ?_⟩
  intro u
  have hdrive : u.drive = { t.drive with autoContinue := false } := by
    show (t.apply _).drive = _
    rw [drive_apply, springs_eq_false ht]
    rfl
  have htrap : u.trap address = t.trap address := by
    show (t.apply _).trap address = _
    rw [trap_apply, Trap.apply, if_pos rfl, ht.hit]
  exact ⟨Array.toList_inj.1 (congrArg Drive.requests hdrive), congrArg Drive.autoContinue hdrive,
    congrArg Trap.waiting htrap⟩

/-- The user breaks at an address; two actions are queued there, one before and one after the process starts again. -/
theorem stays_of_held_restarted :
    let r := (start {} { segments := [⟨0x1000, #[0x48, 0x89, 0xf8, 0xc3], by decide⟩] }).after
      [.setBreakpoint 0x1000, .breakAndTaint 0x1000 "rdi"]
    let steps := [.event (.breakpoint 1 0x1000), .event .processStart, .breakAndTaint 0x1000 "rsi"]
    (r.debugger.hasBreakpoint 0x1000 = true ∧
      ∀ a ∈ r.progress.pending.actions, a.address = 0x1000 → a.keepsBreakpoint = true) ∧
      (r.after steps).debugger.hasBreakpoint 0x1000 = true ∧
      ((r.after steps).apply (.event (.breakpoint 1 0x1000))).debugger.requests = #[.clearRequests] := by
  intro r steps
  have hbreak : r.debugger.hasBreakpoint 0x1000 = true := by decide +kernel
  have hkeeps : ∀ a ∈ r.progress.pending.actions, a.address = 0x1000 → a.keepsBreakpoint = true := by decide +kernel
  obtain ⟨hstays, -, hhit⟩ := stays_of_held r 0x1000 hbreak hkeeps steps
  have hrequests : (r.after steps).debugger.requests = #[.clearRequests] := by decide +kernel
  exact ⟨⟨hbreak, hkeeps⟩, hstays, (hhit 1).1.trans hrequests⟩

/-- Where breakpoints come from. In every state of a run there is a breakpoint at an address iff an action that waits
there owns it, or the user has set it where no action owned one, or a start of the process has forgotten its owner. A
hit takes the breakpoint away together with the owner. A breakpoint whose owner is forgotten stays, and the next action
at its address counts it as the user's. -/
theorem hasBreakpoint_iff_owned_set_or_orphaned (options : Options) (image : Image) (steps : List Step)
    (address : UInt64) :
    let r := start options image
    let t := r.after steps
    (t.debugger.hasBreakpoint address = true ↔
        (∃ a ∈ t.progress.pending.waiting address, a.keepsBreakpoint = false) ∨
          r.SetByUser address steps ∨ r.Orphaned address steps) ∧
      (∀ thread a pending, t.progress.pending.take? address = some (a, pending) → a.keepsBreakpoint = false →
        (t.apply (.event (.breakpoint thread address))).debugger.hasBreakpoint address = false) ∧
      (r.Orphaned address steps → ∀ register,
        (t.apply (.breakAndTaint address register)).progress.pending.waiting address =
          t.progress.pending.waiting address ++ [⟨address, ⟨register⟩, true⟩]) := by
  intro r t
  have howned : (t.trap address).Owned := (stranded_after_iff options image steps address).1
  have hheld : (t.trap address).Held ↔ r.SetByUser address steps ∨ r.Orphaned address steps :=
    held_after_iff options image steps address
  refine ⟨?_, fun thread a pending ha hk => ?_, fun horphaned register => ?_⟩
  · rw [← hheld]
    exact howned.breaks_iff
  · have hhit : ((t.apply (.event (.breakpoint thread address))).trap address).breaks = false := by
      rw [trap_apply, Trap.apply, if_pos rfl, hit_trap_of_take? ha, hk]
      rfl
    exact hhit
  · have hbreaks : (t.trap address).breaks = true := (hheld.2 (.inr horphaned)).1
    have hqueued : ((t.apply (.breakAndTaint address register)).trap address).waiting =
        (t.trap address).waiting ++ [⟨address, ⟨register⟩, (t.trap address).breaks⟩] := by
      rw [trap_apply, Trap.apply, if_pos rfl]
      rfl
    rw [hbreaks] at hqueued
    exact hqueued

/-- An action is queued and the process starts again. The breakpoint of the action is left behind: the user has set
none, and nothing waits there. -/
theorem exists_breakpoint_left_behind :
    let steps := [.breakAndTaint 0x1000 "rdi", .event .processStart]
    let r := (start {} { segments := [⟨0x1000, #[0x48, 0x89, 0xf8, 0xc3], by decide⟩] }).after steps
    ∃ address, r.debugger.hasBreakpoint address = true ∧ .setBreakpoint address ∉ steps ∧
      ∀ a ∈ r.progress.pending.actions, a.address ≠ address := by
  refine ⟨0x1000, ?_⟩
  decide +kernel

end Replay

end TaintReplay
