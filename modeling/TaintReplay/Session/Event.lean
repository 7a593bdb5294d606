import TaintReplay.Session.Trace

/-!
# Events

The debugger notifies a session of `Event`s: the process starts or exits, a step or a traced instruction was executed, a
breakpoint was hit. `Session.handle` reacts to one. What it does depends on whether tracing is armed, whether stepping
goes on by itself, and which actions are pending.
-/

namespace TaintReplay

open Text

inductive Event where
  | processStart
  | stepInto (thread pc : UInt64)
  | stepOver (thread pc : UInt64)
  /-- An instruction was executed while step tracing is on. -/
  | trace (thread pc : UInt64)
  | breakpoint (thread pc : UInt64)
  | processExit
  deriving DecidableEq, Repr

namespace Event

private def located (name : String) (thread pc : UInt64) : String :=
  name ++ " \x7b tid: " ++ toString thread ++ ", pc: " ++ toString pc ++ " \x7d"

def render : Event → String
  | processStart => "ProcessStart"
  | stepInto thread pc => located "StepInto" thread pc
  | stepOver thread pc => located "StepOver" thread pc
  | trace thread pc => located "Trace" thread pc
  | breakpoint thread pc => located "Breakpoint" thread pc
  | processExit => "ProcessExit"

/-- The place where the process has stopped, for the events that report one. -/
def stop? : Event → Option (UInt64 × UInt64)
  | stepInto thread pc | stepOver thread pc | trace thread pc | breakpoint thread pc => some (thread, pc)
  | processStart | processExit => none

end Event

/-- Do the characters of `part` occur in a list of characters, one behind the other? -/
def occursInList (part : List Char) : List Char → Bool
  | [] => part.isEmpty
  | c :: cs => part.isPrefixOf (c :: cs) || occursInList part cs

/-- Does a text occur in another? -/
def occursIn (part text : String) : Bool := occursInList part.toList text.toList

theorem occursInList_iff (part text : List Char) : occursInList part text = true ↔ part <:+: text := by
  induction text with
  | nil => simp [occursInList]
  | cons c cs ih => rw [occursInList, Bool.or_eq_true, List.isPrefixOf_iff_prefix, ih, List.infix_cons_iff]

namespace Session

variable {α ε η : Type} [Analyzer ε] [Debugger η]

/-- Paints an executed instruction, if that is wanted. -/
def paint (s : Session α ε η) (pc : UInt64) : Session α ε η :=
  if s.options.paintExecuted then
    { s with debugger := Debugger.setColor s.debugger pc s.options.colorExecuted }
  else s

def setAutoContinue (s : Session α ε η) (on : Bool) : Session α ε η :=
  { s with progress := { s.progress with autoContinue := on } }

/-- Paints and traces an executed instruction. -/
def observe (s : Session α ε η) (thread pc : UInt64) : Session α ε η := ((s.paint pc).trace pc thread).1

def onProcessStart (s : Session α ε η) : Session α ε η :=
  (s.inform .events "[+] Starting the debugged process. Resetting all the engines.").restart.request .clearRequests

def onProcessExit (s : Session α ε η) : Session α ε η :=
  let s := s.inform .events "[!] Process exiting..."
  { s with progress := { s.progress with armed := false } }

/-- Does the current instruction switch the processor's mode? -/
def atModeSwitch (s : Session α ε η) (i : Instruction) : Bool :=
  !s.options.modeSwitch.isEmpty && occursIn s.options.modeSwitch i.text

/-- Asks for the next step, while stepping goes on by itself. Stepping goes over instructions that switch the
processor's mode. -/
def stepOn (s : Session α ε η) : Session α ε η :=
  if s.progress.autoContinue then
    match s.progress.current with
    | none => (s.say .debug .events TraceError.stale.message).request .stepInto
    | some i =>
      if s.atModeSwitch i then
        (s.say .info .events ("[+] Mode switch at " ++ address i.address.toNat ++ ", stepping over")).request .stepOver
      else s.request .stepInto
  else s

/-- A step was executed. A step that a breakpoint has interrupted is reported twice, and traced once: what stands at
the current instruction's address has been traced. -/
def onStep (s : Session α ε η) (thread pc : UInt64) (into : Bool) : Session α ε η :=
  match s.progress.current with
  | none => s.stepOn
  | some i =>
    if i.address = pc then s.stepOn
    else
      let way := if into then "into" else "over"
      let place := address pc.toNat ++ " (Tid: " ++ toString thread ++ ")"
      let s := s.detail .events ("[+] Stepping " ++ way ++ ": " ++ place)
      (s.observe thread pc).stepOn

/-- Asks whether to go on at the end of a trace window. -/
def askAtLimit (s : Session α ε η) (limit : Nat) : Session α ε η :=
  if s.progress.window = limit then
    let question := "[?] " ++ toString s.progress.total ++ " instructions has been traced. Do you want to execute " ++
      toString limit ++ " more?"
    match Debugger.ask s.debugger question with
    | (debugger, .yes) => { s with debugger, progress := { s.progress with window := 0 } }
    | (debugger, _) =>
      let s := ({ s with debugger }.request .disableStepTrace).request .suspend
      let s := { s with progress := { s.progress with declined := true } }
      s.say .info .events ("[!] Process suspended (Traced " ++ toString s.progress.total ++ " instructions)")
  else s

def onTrace (s : Session α ε η) (thread pc : UInt64) : Session α ε η :=
  if s.progress.declined then
    s.say .debug .events ("step tracing stopped, ignoring trace at " ++ address pc.toNat)
  else
    let s := s.observe thread pc
    let s := { s with progress := { s.progress with window := s.progress.window + 1, total := s.progress.total + 1 } }
    match s.options.window? with
    | some limit => s.askAtLimit limit
    | none => s

variable [Action α ε η]

/-- Fires an action that waited for `pc`. -/
def fire (s : Session α ε η) (a : PendingAction α) (pc : UInt64) : Session α ε η × PendingAction α :=
  let fired := Action.fire a.action pc s.analysis s.debugger
  let s := { s with analysis := fired.analysis, debugger := fired.debugger }
  (if fired.armed then s.arm else s, { a with action := fired.action })

/-- A breakpoint was hit. One that no action waits for is the user's and ends stepping. Otherwise the first action
fires; it is put back if it shares its address with a breakpoint of the user, and else its breakpoint goes and the
process moves on. -/
def onBreakpoint (s : Session α ε η) (thread pc : UInt64) : Session α ε η :=
  match s.progress.pending.take? pc with
  | none => s.setAutoContinue false
  | some (a, pending) =>
    let (s, a) := { s with progress := { s.progress with pending } }.fire a pc
    let s := s.observe thread pc
    if a.keepsBreakpoint then
      { s with progress := { s.progress with pending := s.progress.pending.putBack a, autoContinue := false } }
    else
      let s := { s with debugger := Debugger.removeBreakpoint s.debugger pc }
      if s.options.stepAfterAction then ((s.setAutoContinue true).request .stepInto).request .runRequests
      else s.request .resume

/-- Reacts to an event. -/
def handle (s : Session α ε η) : Event → Session α ε η
  | .processStart => s.onProcessStart
  | .stepInto thread pc => s.onStep thread pc true
  | .stepOver thread pc => s.onStep thread pc false
  | .trace thread pc => s.onTrace thread pc
  | .breakpoint thread pc => s.onBreakpoint thread pc
  | .processExit => s.onProcessExit

end Session

end TaintReplay
