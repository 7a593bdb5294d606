import TaintReplay.ActionQueue
import TaintReplay.Debugger.Basic
import TaintReplay.Options
import TaintReplay.PathConstraint

/-!
# Sessions

A `Session` joins the options, the analysis, the debugger and the `Progress` of tracing one process. `Session.restart`
begins anew: the analysis forgets everything and the progress is empty again.
-/

namespace TaintReplay

/-- How far the tracing of one process has come. -/
structure Progress (α : Type) where
  /-- Nothing is traced unless tracing is armed. -/
  armed : Bool := false
  /-- Instructions traced since the last question. -/
  window : Nat := 0
  total : Nat := 0
  /-- Has anything been tainted or made symbolic? -/
  marked : Bool := false
  /-- Does stepping go on by itself? -/
  autoContinue : Bool := false
  /-- How many functions have been renamed. -/
  renamed : Nat := 0
  /-- Has the user declined to trace another window? -/
  declined : Bool := false
  current : Option Instruction := none
  pending : ActionQueue α := {}
  constraints : PathLog := []

/-- The state of tracing a process: `α` is the type of pending actions, `ε` the analysis, `η` the debugger. -/
structure Session (α ε η : Type) where
  options : Options
  analysis : ε
  debugger : η
  progress : Progress α := {}

/-- What firing an action leaves behind. -/
structure Fired (α ε η : Type) where
  action : α
  analysis : ε
  debugger : η
  /-- Did the action ask for tracing to be armed? -/
  armed : Bool

/-- Actions that may wait for an address. -/
class Action (α ε η : Type) where
  fire : α → UInt64 → ε → η → Fired α ε η

/-- Writes down the expressions that a new state of the analysis has more than an old one. -/
def announce {ε η : Type} [Analyzer ε] [Debugger η] (old new : ε) (debugger : η) : η :=
  (Analyzer.newTexts old new).foldl (fun d text => Debugger.say d ⟨.trace, .analysis, text⟩) debugger

namespace Session

variable {α ε η : Type} [Analyzer ε] [Debugger η]

def say (s : Session α ε η) (level : Level) (component : Component) (text : String) : Session α ε η :=
  { s with debugger := Debugger.say s.debugger ⟨level, component, text⟩ }

/-- Writes a line if information is wanted. -/
def inform (s : Session α ε η) (component : Component) (text : String) : Session α ε η :=
  if s.options.showInfo then s.say .info component text else s

/-- Writes a line if detail is wanted. -/
def detail (s : Session α ε η) (component : Component) (text : String) : Session α ε η :=
  if s.options.showDetail then s.say .debug component text else s

/-- Takes over a new state of the analysis. -/
def advance (s : Session α ε η) (analysis : ε) : Session α ε η :=
  { s with analysis, debugger := announce s.analysis analysis s.debugger }

def request (s : Session α ε η) (r : Request) : Session α ε η :=
  { s with debugger := Debugger.request s.debugger r }

/-- Makes `i` the current instruction. -/
def setCurrent (s : Session α ε η) (i : Instruction) : Session α ε η :=
  { s with progress := { s.progress with current := some i } }

/-- Arms tracing because something has become a source. -/
def arm (s : Session α ε η) : Session α ε η :=
  { s with progress := { s.progress with armed := true, marked := true } }

/-- Begins a new session with the same options. -/
def restart (s : Session α ε η) : Session α ε η :=
  let s := s.inform .session "[+] Restarting engines..."
  let analysis := Analyzer.reset s.analysis
  let analysis := Analyzer.setTaint analysis s.options.useTaint
  let analysis := Analyzer.setSymbolic analysis s.options.useSymbols
  { s with analysis, progress := {} }

end Session

end TaintReplay
