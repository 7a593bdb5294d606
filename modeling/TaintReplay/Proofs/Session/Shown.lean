import TaintReplay.Proofs.Session.Names

/-!
# What a trace shows to the user

The `Shown` of a session are the colours and the comments that the user sees at addresses. A trace colours its address
iff it finds the instruction there tainted or symbolic, and has a colour of its own for conditional branches; comments
it only adds (`shown_trace`). So nothing that is shown at an address is taken away, which `Carried` says of any map by
addresses.
-/

namespace TaintReplay

/-! ## Maps that only grow -/

/-- Every address of the first map is one of the second, where its value is related to the one before. -/
def Carried {ν : Type} (R : ν → ν → Prop) (m n : Std.TreeMap UInt64 ν) : Prop :=
  ∀ (a : UInt64) (x : ν), m[a]? = some x → ∃ y : ν, n[a]? = some y ∧ R x y

namespace Carried

variable {ν : Type} {R : ν → ν → Prop} {k m n : Std.TreeMap UInt64 ν}

protected theorem refl (hR : ∀ x, R x x) (m : Std.TreeMap UInt64 ν) : Carried R m m := fun _ x hx => ⟨x, hx, hR x⟩

theorem trans (hR : ∀ x y z, R x y → R y z → R x z) (h₁ : Carried R k m) (h₂ : Carried R m n) : Carried R k n := by
  intro a x hx
  obtain ⟨y, hy, hxy⟩ := h₁ a x hx
  obtain ⟨z, hz, hyz⟩ := h₂ a y hy
  exact ⟨z, hz, hR x y z hxy hyz⟩

/-- A new value must be related to the one that it replaces. -/
theorem insert (hR : ∀ x, R x x) (m : Std.TreeMap UInt64 ν) {a : UInt64} {y : ν} (h : ∀ x, m[a]? = some x → R x y) :
    Carried R m (m.insert a y) := by
  intro b x hx
  by_cases hab : a = b
  · subst hab
    exact ⟨y, by simp, h x hx⟩
  · have hcompare : compare a b ≠ .eq := fun hc => hab (Std.compare_eq_iff_eq.1 hc)
    exact ⟨x, by simpa [Std.TreeMap.getElem?_insert, hcompare] using hx, hR x⟩

end Carried

/-- Every address of the first map is one of the second. -/
def Keyed {ν : Type} (m n : Std.TreeMap UInt64 ν) : Prop := Carried (fun _ _ => True) m n

namespace Keyed

variable {ν : Type} {k m n : Std.TreeMap UInt64 ν}

protected theorem refl (m : Std.TreeMap UInt64 ν) : Keyed m m := Carried.refl (fun _ => trivial) m

theorem trans (h₁ : Keyed k m) (h₂ : Keyed m n) : Keyed k n := Carried.trans (fun _ _ _ _ _ => trivial) h₁ h₂

theorem insert (m : Std.TreeMap UInt64 ν) (a : UInt64) (y : ν) : Keyed m (m.insert a y) :=
  Carried.insert (fun _ => trivial) m fun _ _ => trivial

end Keyed

/-- Comments only come behind those that are there. -/
theorem Recorder.carried_addComment (d : Recorder) (a : UInt64) (text : String) :
    Carried (· <+: ·) d.comments (d.addComment a text).comments := by
  refine .insert List.prefix_refl d.comments fun texts htexts => ?_
  rw [Std.TreeMap.getD_eq_getD_getElem?, htexts]
  exact List.prefix_append texts [text]

/-! ## Colours and comments -/

/-- What the user sees at addresses. -/
structure Shown where
  colors : Std.TreeMap UInt64 UInt32
  comments : Std.TreeMap UInt64 (List String)

/-- The colour of an instruction that is tainted or symbolic. -/
def Options.colorOf (o : Options) (branch : Bool) : UInt32 := if branch then o.colorCondition else o.colorTainted

/-- Does a conditional branch stand at the address? -/
def Recorder.branchesAt (d : Recorder) (pc : UInt64) : Bool :=
  (X86.decode (d.codeAt pc)).any (·.opcode.branch?.isSome)

namespace Session

section Shown

variable {α ε : Type} (s : Session α ε Recorder)

def shown : Shown where
  colors := s.debugger.colors
  comments := s.debugger.comments

@[simp] theorem shown_inform (component : Component) (text : String) : (s.inform component text).shown = s.shown := by
  unfold inform
  split <;> rfl

theorem shown_commentControlled (i : Instruction) : ∃ comments, Carried (· <+: ·) s.debugger.comments comments ∧
    (s.commentControlled i).shown = { s.shown with comments } := by
  unfold commentControlled
  dsimp only
  split
  · exact ⟨_, s.debugger.carried_addComment _ _, rfl⟩
  · exact ⟨_, .refl List.prefix_refl _, rfl⟩

theorem shown_tagFunction (address : UInt64) : (s.tagFunction address).shown = s.shown := by
  obtain h | ⟨_, _, _, h⟩ := s.tagFunction_cases address <;> rw [h]
  rfl

/-- Tagging the function of an instruction, if that is wanted, shows nothing and keeps the options. -/
theorem shown_tagged (address : UInt64) :
    let t := if s.options.renameTainted then s.tagFunction address else s
    t.shown = s.shown ∧ t.options = s.options := by
  dsimp only
  split
  · exact ⟨s.shown_tagFunction address, congrArg Control.options (s.control_tagFunction address)⟩
  · exact ⟨rfl, rfl⟩

/-- An instruction that is tainted or symbolic is coloured. -/
theorem shown_highlight (i : Instruction) : (s.highlight i).shown =
    if i.tainted || i.symbolized then
      { s.shown with colors := s.debugger.colors.insert i.address (s.options.colorOf i.branch) }
    else s.shown := by
  unfold highlight
  split
  · dsimp only
    generalize ht : (Session.inform _ _ _ : Session α ε Recorder) = t
    have hinformed : t.shown = s.shown ∧ t.options = s.options := by
      rw [← ht]
      exact ⟨shown_inform _ _ _, congrArg Control.options (control_inform _ _ _)⟩
    obtain ⟨htagged, hoptions⟩ := t.shown_tagged i.address
    generalize (if t.options.renameTainted then t.tagFunction i.address else t) = u at htagged hoptions ⊢
    have hshown : u.shown = s.shown := htagged.trans hinformed.1
    have hcolors : s.debugger.colors = u.debugger.colors := congrArg Shown.colors hshown.symm
    rw [← hshown, hcolors, ← hinformed.2, ← hoptions]
    rfl
  · rfl

section Analyzer

variable [Analyzer ε]

theorem shown_advance (analysis : ε) : (s.advance analysis).shown = s.shown := by
  unfold advance
  rw [announce_eq]
  rfl

theorem shown_commentExpressions (i : Instruction) : ∃ comments, Carried (· <+: ·) s.debugger.comments comments ∧
    (s.commentExpressions i).shown = { s.shown with comments } := by
  unfold commentExpressions
  dsimp only
  split
  · exact ⟨_, s.debugger.carried_addComment _ _, rfl⟩
  · exact ⟨_, .refl List.prefix_refl _, rfl⟩

theorem shown_recordBranch (i : Instruction) : (s.recordBranch i).1.shown = s.shown := by
  unfold recordBranch
  split
  · rfl
  · dsimp only
    split
    · exact shown_inform _ _ _
    · exact shown_inform _ _ _

theorem shown_report (i : Instruction) : ∃ comments, Carried (· <+: ·) s.debugger.comments comments ∧
    (s.report i).1.shown =
      { comments
        colors :=
          if i.tainted || i.symbolized then s.debugger.colors.insert i.address (s.options.colorOf i.branch)
          else s.debugger.colors } := by
  obtain ⟨controlled, hcontrolled, hs⟩ := s.shown_commentControlled i
  obtain ⟨comments, hcomments, ht⟩ := (s.commentControlled i).shown_commentExpressions i
  generalize htt : (s.commentControlled i).commentExpressions i = t at ht
  have hmiddle : (s.commentControlled i).debugger.comments = controlled := congrArg Shown.comments hs
  have hoptions : t.options = s.options := by
    rw [← htt]
    exact congrArg Control.options ((control_commentExpressions _ i).trans (s.control_commentControlled i))
  have hshown : t.shown = { s.shown with comments } := by rw [ht, hs]
  have hhighlight := t.shown_highlight i.trust
  rw [hshown, hoptions, show t.debugger.colors = t.shown.colors from rfl, hshown] at hhighlight
  have hreport : (s.report i).1.shown = (t.highlight i.trust).shown := by
    unfold report
    dsimp only
    rw [htt]
    split
    · exact shown_recordBranch _ _
    · rfl
  rw [hmiddle] at hcomments
  refine ⟨comments, hcontrolled.trans (fun _ _ _ => List.IsPrefix.trans) hcomments, ?_⟩
  rw [hreport, hhighlight]
  show (if i.tainted || i.symbolized then _ else _ : Shown) = _
  split <;> rfl

end Analyzer

end Shown

variable {α : Type} (s : Session α Shadow Recorder)

/-- All that a trace shows: it colours its address iff it finds the instruction tainted or symbolic, and adds
comments. -/
theorem shown_trace (pc thread : UInt64) : ∃ comments, Carried (· <+: ·) s.debugger.comments comments ∧
    (s.trace pc thread).1.shown =
      { comments
        colors :=
          if (s.trace pc thread).2.finds then
            s.debugger.colors.insert pc (s.options.colorOf (s.debugger.branchesAt pc))
          else s.debugger.colors } := by
  cases harmed : s.progress.armed with
  | false =>
    rw [trace_dormant s pc thread harmed]
    exact ⟨_, .refl List.prefix_refl _, rfl⟩
  | true =>
    cases hd : X86.decode (s.debugger.codeAt pc) with
    | none =>
      rw [trace_of_not_decode harmed hd]
      exact ⟨_, .refl List.prefix_refl _, rfl⟩
    | some d =>
      rw [trace_of_decode harmed hd]
      generalize hi : recordOf d (s.debugger.codeAt pc) pc thread = i
      generalize hu : (s.setCurrent { address := pc, thread }).inform .tracing ("[+] Tracing " ++ i.render) = u
      have hshown : u.shown = s.shown := by
        rw [← hu, shown_inform]
        rfl
      have hoptions : u.options = s.options := by
        rw [← hu]
        exact congrArg Control.options (control_inform _ _ _)
      have haddress : i.address = pc := by rw [← hi]; rfl
      have hbranch : i.branch = s.debugger.branchesAt pc := by
        rw [← hi, Recorder.branchesAt, hd]
        rfl
      obtain ⟨comments, hcomments, hreport⟩ := (u.advance (s.analysis.step d i s.debugger.register).1).shown_report
        (s.analysis.step d i s.debugger.register).2
      have hadvanced := u.shown_advance (s.analysis.step d i s.debugger.register).1
      rw [hshown] at hadvanced
      have hcolors := congrArg Shown.colors hadvanced
      have hold := congrArg Shown.comments hadvanced
      dsimp only [shown] at hcolors hold
      rw [hold] at hcomments
      have hadvance : (u.advance (s.analysis.step d i s.debugger.register).1).options = s.options := hoptions
      rw [hcolors, Shadow.address_step, Shadow.branch_step, haddress, hbranch, hadvance] at hreport
      refine ⟨comments, hcomments, ?_⟩
      rw [report_snd]
      exact hreport

end Session

end TaintReplay
