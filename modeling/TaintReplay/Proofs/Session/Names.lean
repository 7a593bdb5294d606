import TaintReplay.Proofs.Session.Fetch
import TaintReplay.Proofs.Session.Halves

/-!
# Which functions a trace renames

The `Names` of a session are its functions, their new names, and how many new names there have been. A trace that finds
taint or symbols gives the function at its address a new name, if that is wanted and its name is not recognised
(`Names.tag`), and no trace does more to the names than that (`names_trace`).
-/

namespace TaintReplay

/-- The functions of the process, the new names that they have got, and how many of these there have been. -/
structure Names where
  functions : List FunctionRange
  renames : Std.TreeMap UInt64 String
  renamed : Nat

/-- An instruction at the address is tainted or symbolic. Its function gets a new name, unless its name is
recognised. -/
def Names.tag (n : Names) (address : UInt64) : Names :=
  match n.functions.find? (·.contains address) with
  | none => n
  | some f =>
    let name := n.renames.getD f.start f.name
    if FunctionName.isTagged name then n
    else
      { n with
        renames := n.renames.insert f.start (FunctionName.tagged n.renamed name)
        renamed := n.renamed + 1 }

/-- Did the trace find the instruction tainted or symbolic? -/
def Outcome.finds : Outcome → Bool
  | traced tainted symbolized _ => tainted || symbolized
  | _ => false

namespace Session

section Names

variable {α ε : Type} (s : Session α ε Recorder)

def names : Names where
  functions := s.debugger.image.functions
  renames := s.debugger.renames
  renamed := s.progress.renamed

@[simp] theorem names_inform (component : Component) (text : String) : (s.inform component text).names = s.names := by
  unfold inform
  split <;> rfl

theorem names_commentControlled (i : Instruction) : (s.commentControlled i).names = s.names := by
  unfold commentControlled
  dsimp only
  split <;> rfl

theorem names_tagFunction (address : UInt64) : (s.tagFunction address).names = s.names.tag address := by
  have hat : s.names.functions.find? (·.contains address) = s.debugger.image.functionAt address := rfl
  have hname : Debugger.functionName s.debugger address =
      (s.debugger.image.functionAt address).map fun f => s.names.renames.getD f.start f.name := rfl
  unfold tagFunction Names.tag
  rw [hname, hat]
  cases hf : s.debugger.image.functionAt address with
  | none => rfl
  | some f =>
    have hrename (name : String) : Debugger.renameFunction s.debugger address name =
        ({ s.debugger with renames := s.debugger.renames.insert f.start name }, true) := by
      show s.debugger.renameFunction address name = _
      simp only [Recorder.renameFunction, hf]
    dsimp only [Option.map_some]
    split
    · rfl
    · rw [hrename]
      dsimp only [detail]
      split <;> rfl

theorem names_highlight (i : Instruction) : (s.highlight i).names =
    if s.options.renameTainted && (i.tainted || i.symbolized) then s.names.tag i.address else s.names := by
  unfold highlight
  cases hfinds : i.tainted || i.symbolized with
  | false => rw [Bool.and_false]; rfl
  | true =>
    rw [Bool.and_true, if_pos rfl]
    dsimp only
    generalize ht : (Session.inform _ _ _ : Session α ε Recorder) = t
    have hoptions : t.options = s.options := by
      rw [← ht]
      exact congrArg Control.options (control_inform _ _ _)
    have hnames : t.names = s.names := by
      rw [← ht]
      exact names_inform _ _ _
    rw [← hoptions, ← hnames]
    split
    · exact t.names_tagFunction i.address
    · rfl

section Analyzer

variable [Analyzer ε]

theorem names_commentExpressions (i : Instruction) : (s.commentExpressions i).names = s.names := by
  unfold commentExpressions
  dsimp only
  split <;> rfl

theorem names_advance (analysis : ε) : (s.advance analysis).names = s.names := by
  unfold advance
  rw [announce_eq]
  rfl

theorem names_recordBranch (i : Instruction) : (s.recordBranch i).1.names = s.names := by
  unfold recordBranch
  split
  · rfl
  · dsimp only
    split
    · exact names_inform _ _ _
    · exact names_inform _ _ _

theorem names_report (i : Instruction) : (s.report i).1.names =
    if s.options.renameTainted && (i.tainted || i.symbolized) then s.names.tag i.address else s.names := by
  have hcommented : ((s.commentControlled i).commentExpressions i).names = s.names :=
    (names_commentExpressions _ i).trans (s.names_commentControlled i)
  have hoptions : ((s.commentControlled i).commentExpressions i).options = s.options :=
    congrArg Control.options ((control_commentExpressions _ i).trans (s.control_commentControlled i))
  have hhighlight := ((s.commentControlled i).commentExpressions i).names_highlight i.trust
  rw [hcommented, hoptions] at hhighlight
  unfold report
  dsimp only
  split
  · exact (names_recordBranch _ _).trans hhighlight
  · exact hhighlight

end Analyzer

end Names

variable {α : Type} (s : Session α Shadow Recorder)

/-- All that a trace does to the names: if it finds something and renaming is wanted, the function at its address is
tagged. -/
theorem names_trace (pc thread : UInt64) : (s.trace pc thread).1.names =
    if s.options.renameTainted && (s.trace pc thread).2.finds then s.names.tag pc else s.names := by
  cases harmed : s.progress.armed with
  | false =>
    rw [trace_dormant s pc thread harmed]
    simp [Outcome.finds]
  | true =>
    cases hd : X86.decode (s.debugger.codeAt pc) with
    | none =>
      rw [trace_of_not_decode harmed hd]
      simp only [Outcome.finds, abandon, Bool.and_false]
      rfl
    | some d =>
      rw [trace_of_decode harmed hd]
      generalize hi : recordOf d (s.debugger.codeAt pc) pc thread = i
      generalize hu : (s.setCurrent { address := pc, thread }).inform .tracing ("[+] Tracing " ++ i.render) = u
      have hnames : u.names = s.names := by
        rw [← hu, names_inform]
        rfl
      have hoptions : u.options = s.options := by
        rw [← hu]
        exact congrArg Control.options (control_inform _ _ _)
      have haddress : (s.analysis.step d i s.debugger.register).2.address = pc := by
        rw [Shadow.address_step, ← hi]
        rfl
      have hadvanced : (u.advance (s.analysis.step d i s.debugger.register).1).options = s.options := hoptions
      rw [names_report, report_snd, names_advance, hnames, hadvanced, haddress]
      rfl

end Session

end TaintReplay
