import TaintReplay.Debugger.Recorder
import TaintReplay.Session.Event

/-!
# A debugger that misbehaves

A `Host` is a recorder with faults: it may claim other instruction lengths, read less than there is, refuse to rename,
and notify its session again while the session is still busy with an event. Such a notification is ignored with a
warning.
-/

namespace TaintReplay.Rehearsal

/-- A call of the session on its debugger. -/
inductive Occasion where
  | request (r : Request)
  | question
  | color
  | comment
  deriving DecidableEq, Repr

/-- What a step of a routine gave. -/
inductive ActResult where
  | nothing
  | flag (on : Bool)
  | value (x : Option UInt64)
  | failed (cause : AnalysisError)

/-- The report of a routine that was fired. -/
structure Hit where
  id : String
  pc : UInt64
  count : Nat
  armed : Bool
  results : List ActResult

structure Host where
  recorder : Recorder := {}
  /-- Instruction lengths that are claimed whatever the bytes are. -/
  lengths : List (UInt64 × Option Nat) := []
  /-- How many bytes a read at an address gives at most. -/
  readLimits : List (UInt64 × Nat) := []
  refusesRename : Bool := false
  /-- The events that are notified while the session makes a call. -/
  reentries : List (Occasion × Event) := []
  /-- How many notifications have been ignored. -/
  ignored : Nat := 0
  hits : Array Hit := #[]

namespace Host

/-- Notifies the session while it is busy: the event is ignored. -/
def ignore (h : Host) (e : Event) : Host :=
  let line := ⟨.warn, .events, "[!] Re-entrant " ++ e.render ++ " notification ignored"⟩
  { h with recorder := h.recorder.say line, ignored := h.ignored + 1 }

/-- Makes the notifications of an occasion. -/
def meet (h : Host) (o : Occasion) : Host :=
  ((h.reentries.filter (·.1 == o)).map (·.2)).foldl ignore h

def read (h : Host) (address : UInt64) (count : Nat) : List UInt8 :=
  h.recorder.image.read address (((h.readLimits.lookup address).map (min count)).getD count)

def instructionLength (h : Host) (address : UInt64) : Option Nat :=
  (h.lengths.lookup address).getD (h.recorder.instructionLength address)

def request (h : Host) (r : Request) : Host :=
  let h := h.meet (.request r)
  { h with recorder := h.recorder.request r }

def ask (h : Host) (question : String) : Host × Answer :=
  let h := h.meet .question
  let (recorder, answer) := h.recorder.ask question
  ({ h with recorder }, answer)

def setColor (h : Host) (address : UInt64) (color : UInt32) : Host :=
  let h := h.meet .color
  { h with recorder := h.recorder.setColor address color }

def addComment (h : Host) (address : UInt64) (text : String) : Host :=
  let h := h.meet .comment
  { h with recorder := h.recorder.addComment address text }

def renameFunction (h : Host) (address : UInt64) (name : String) : Host × Bool :=
  if h.refusesRename then (h, false)
  else
    let (recorder, done) := h.recorder.renameFunction address name
    ({ h with recorder }, done)

instance : Debugger Host where
  register h := h.recorder.register
  read := read
  instructionLength := instructionLength
  currentThread h := h.recorder.thread
  hasBreakpoint h := h.recorder.hasBreakpoint
  addBreakpoint h a := { h with recorder := h.recorder.addBreakpoint a }
  removeBreakpoint h a := { h with recorder := h.recorder.removeBreakpoint a }
  request := request
  ask := ask
  setColor := setColor
  addComment := addComment
  functionName h := h.recorder.functionName
  renameFunction := renameFunction
  say h l := { h with recorder := h.recorder.say l }

end Host

end TaintReplay.Rehearsal
