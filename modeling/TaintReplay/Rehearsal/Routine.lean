import TaintReplay.Rehearsal.Host

/-!
# Routines

A `Routine` is a pending action that performs a list of acts on the analysis and the debugger, and reports what each of
them gave.
-/

namespace TaintReplay.Rehearsal

inductive Act where
  | arm
  | taintRegister (name : String)
  | taintMemory (start : UInt64) (length : Nat)
  | setSymbolic (on : Bool)
  | comment (address : UInt64) (text : String)
  | color (address : UInt64) (color : UInt32)
  | addBreakpoint (address : UInt64)
  | removeBreakpoint (address : UInt64)
  | rename (address : UInt64) (name : String)
  | suspend
  | register (name : String)
  deriving DecidableEq, Repr

structure Routine where
  id : String
  acts : List Act
  /-- How often the routine was fired. -/
  fired : Nat := 0

/-- The state of a routine that is running. -/
structure Run (ε : Type) where
  analysis : ε
  host : Host
  armed : Bool := false
  results : Array ActResult := #[]

namespace Run

variable {ε : Type} [Analyzer ε]

def give (r : Run ε) (result : ActResult) : Run ε := { r with results := r.results.push result }

/-- Takes over a new state of the analysis. -/
def advance (r : Run ε) (analysis : ε) : Run ε :=
  { r with analysis, host := announce r.analysis analysis r.host }

def perform (r : Run ε) : Act → Run ε
  | .arm => { r with armed := true }.give (.flag true)
  | .taintRegister name =>
    match Analyzer.taintRegister r.analysis name with
    | .ok analysis => (r.advance analysis).give (.flag true)
    | .error cause => r.give (.failed cause)
  | .taintMemory start length => (r.advance (Analyzer.taintMemory r.analysis start length)).give .nothing
  | .setSymbolic on => { r with analysis := Analyzer.setSymbolic r.analysis on }.give .nothing
  | .comment address text => { r with host := r.host.addComment address text }.give .nothing
  | .color address color => { r with host := r.host.setColor address color }.give .nothing
  | .addBreakpoint address =>
    { r with host := Debugger.addBreakpoint r.host address }.give (.flag !(Debugger.hasBreakpoint r.host address))
  | .removeBreakpoint address =>
    { r with host := Debugger.removeBreakpoint r.host address }.give (.flag (Debugger.hasBreakpoint r.host address))
  | .rename address name =>
    let (host, done) := r.host.renameFunction address name
    { r with host }.give (.flag done)
  | .suspend => { r with host := r.host.request .suspend }.give .nothing
  | .register name => r.give (.value (Debugger.register r.host (.ofName name)))

end Run

instance {ε : Type} [Analyzer ε] : Action Routine ε Host where
  fire routine pc analysis host :=
    let run := routine.acts.foldl Run.perform { analysis, host }
    let fired := routine.fired + 1
    let hit := { id := routine.id, pc, count := fired, armed := run.armed, results := run.results.toList }
    { action := { routine with fired }
      analysis := run.analysis
      debugger := { run.host with hits := run.host.hits.push hit }
      armed := run.armed }

end TaintReplay.Rehearsal
