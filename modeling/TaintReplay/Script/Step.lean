import TaintReplay.Json.Reader
import TaintReplay.Script

/-!
# Steps in JSON

A step is written with its kind: as an object with a member `kind` and a member for each of its fields, or as a list of
the kind and the fields in order. Its fields are collected in a `Draft` first, which is then completed to a step.
-/

namespace TaintReplay

open Json

namespace Step

/-- The fields that steps are made of. -/
inductive Field where
  | thread
  | pc
  | values
  | address
  | bytes
  | start
  | stop
  | name
  | register
  | length
  | yes
  deriving DecidableEq, Repr

def Field.text : Field → String
  | thread => "tid"
  | pc => "pc"
  | values => "values"
  | address => "address"
  | bytes => "bytes"
  | start => "start"
  | stop => "end"
  | name => "name"
  | register => "register"
  | length => "len"
  | yes => "yes"

inductive Kind where
  | processStart
  | processExit
  | stepInto
  | stepOver
  | trace
  | breakpoint
  | registers
  | write
  | function
  | setBreakpoint
  | breakAndTaint
  | taintRegister
  | taintMemory
  | answer
  | enableStepTrace
  deriving DecidableEq, Repr

namespace Kind

def all : List Kind := [
  processStart, processExit, stepInto, stepOver, trace, breakpoint, registers, write, function, setBreakpoint,
  breakAndTaint, taintRegister, taintMemory, answer, enableStepTrace]

/-- The name of a kind in a script. -/
def text : Kind → String
  | processStart => "process_start"
  | processExit => "process_exit"
  | stepInto => "step_into"
  | stepOver => "step_over"
  | trace => "trace"
  | breakpoint => "breakpoint"
  | registers => "registers"
  | write => "write"
  | function => "function"
  | setBreakpoint => "set_breakpoint"
  | breakAndTaint => "break_and_taint"
  | taintRegister => "taint_register"
  | taintMemory => "taint_memory"
  | answer => "answer"
  | enableStepTrace => "enable_step_trace"

/-- The name of a kind in messages. -/
def title : Kind → String
  | processStart => "ProcessStart"
  | processExit => "ProcessExit"
  | stepInto => "StepInto"
  | stepOver => "StepOver"
  | trace => "Trace"
  | breakpoint => "Breakpoint"
  | registers => "Registers"
  | write => "Write"
  | function => "Function"
  | setBreakpoint => "SetBreakpoint"
  | breakAndTaint => "BreakAndTaint"
  | taintRegister => "TaintRegister"
  | taintMemory => "TaintMemory"
  | answer => "Answer"
  | enableStepTrace => "EnableStepTrace"

/-- The fields of a kind, in order. -/
def fields : Kind → List Field
  | processStart | processExit | enableStepTrace => []
  | stepInto | stepOver | trace | breakpoint => [.thread, .pc]
  | registers => [.values]
  | write => [.address, .bytes]
  | function => [.start, .stop, .name]
  | setBreakpoint => [.address]
  | breakAndTaint => [.address, .register]
  | taintRegister => [.register]
  | taintMemory => [.address, .length]
  | answer => [.yes]

/-- The kind of a name. -/
def ofText (s : String) : Except DataFault Kind :=
  match all.find? (·.text == s) with
  | some k => .ok k
  | none => .error (.unknownVariant s (all.map text))

theorem ofText_text (k : Kind) : ofText k.text = .ok k := by
  cases k <;> rfl

end Kind

/-- The fields of a step that have been read. -/
structure Draft where
  thread : Option UInt64 := none
  pc : Option UInt64 := none
  values : Option (List (String × UInt64)) := none
  address : Option UInt64 := none
  bytes : Option (List UInt8) := none
  start : Option UInt64 := none
  stop : Option UInt64 := none
  name : Option String := none
  register : Option String := none
  length : Option UInt64 := none
  yes : Option Bool := none

namespace Draft

/-- Has the field been read? -/
def has (d : Draft) : Field → Bool
  | .thread => d.thread.isSome
  | .pc => d.pc.isSome
  | .values => d.values.isSome
  | .address => d.address.isSome
  | .bytes => d.bytes.isSome
  | .start => d.start.isSome
  | .stop => d.stop.isSome
  | .name => d.name.isSome
  | .register => d.register.isSome
  | .length => d.length.isSome
  | .yes => d.yes.isSome

/-- Sets the value of a name; a name that is there already gets the new value. -/
def setValue (values : List (String × UInt64)) (name : String) (x : UInt64) : List (String × UInt64) :=
  if values.any (·.1 == name) then values.map fun (n, y) => if n == name then (n, x) else (n, y)
  else values ++ [(name, x)]

/-- The values of registers. Of several values for one name the last one counts. -/
def readValues (v : Value) : Except DataFault (List (String × UInt64)) := do
  (← v.asObject).foldlM (fun values (name, v) => do return setValue values name (← v.asWord)) []

def readBytes (v : Value) : Except DataFault (List UInt8) := do (← v.asArray).mapM Value.asByte

/-- Reads the value of a field. -/
def put (d : Draft) (field : Field) (v : Value) : Except DataFault Draft :=
  match field with
  | .thread => v.asWord.map fun x => { d with thread := some x }
  | .pc => v.asWord.map fun x => { d with pc := some x }
  | .values => (readValues v).map fun x => { d with values := some x }
  | .address => v.asWord.map fun x => { d with address := some x }
  | .bytes => (readBytes v).map fun x => { d with bytes := some x }
  | .start => v.asWord.map fun x => { d with start := some x }
  | .stop => v.asWord.map fun x => { d with stop := some x }
  | .name => v.asText.map fun x => { d with name := some x }
  | .register => v.asText.map fun x => { d with register := some x }
  | .length => v.asWord.map fun x => { d with length := some x }
  | .yes => v.asBool.map fun x => { d with yes := some x }

/-- A field that must be there. -/
def need {α : Type} (field : Field) : Option α → Except DataFault α
  | some x => .ok x
  | none => .error (.missingField field.text)

/-- The step of a draft. A thread that is not given is the one with the number zero. -/
def complete (d : Draft) : Kind → Except DataFault Step
  | .processStart => .ok (.event .processStart)
  | .processExit => .ok (.event .processExit)
  | .stepInto => (need .pc d.pc).map fun pc => .event (.stepInto (d.thread.getD 0) pc)
  | .stepOver => (need .pc d.pc).map fun pc => .event (.stepOver (d.thread.getD 0) pc)
  | .trace => (need .pc d.pc).map fun pc => .event (.trace (d.thread.getD 0) pc)
  | .breakpoint => (need .pc d.pc).map fun pc => .event (.breakpoint (d.thread.getD 0) pc)
  | .registers => (need .values d.values).map .registers
  | .write => do return .write (← need .address d.address) (← need .bytes d.bytes)
  | .function => do
    return .function {
      start := ← need .start d.start, stop := ← need .stop d.stop, name := ← need .name d.name }
  | .setBreakpoint => (need .address d.address).map .setBreakpoint
  | .breakAndTaint => do return .breakAndTaint (← need .address d.address) (← need .register d.register)
  | .taintRegister => (need .register d.register).map .taintRegister
  | .taintMemory => do return .taintMemory (← need .address d.address) (← need .length d.length)
  | .answer => (need .yes d.yes).map .answer
  | .enableStepTrace => .ok .enableStepTrace

end Draft

/-- The fields of a step as they stand in the text. -/
inductive Content where
  | members (members : List (String × Value))
  | items (items : List Value)

/-- The word for a number of elements. -/
def elements (n : Nat) : String := if n = 1 then "1 element" else toString n ++ " elements"

/-- Fills a draft from members. Names that are no fields of the kind do not count. -/
def draftOfMembers (kind : Kind) (d : Draft) : List (String × Value) → Except DataFault Draft
  | [] => .ok d
  | (key, v) :: rest =>
    match kind.fields.find? (·.text == key) with
    | none => draftOfMembers kind d rest
    | some field =>
      if d.has field then .error (.duplicateField key)
      else match d.put field v with
        | .ok d => draftOfMembers kind d rest
        | .error fault => .error fault

/-- Fills a draft from the items of a list, of which the fields in front have taken `count`. -/
def draftOfItems (kind : Kind) (d : Draft) (count : Nat) : List Field → List Value → Except DataFault Draft
  | [], [] => .ok d
  | [], rest => .error (.wrongLength (count + rest.length) (elements count ++ " in sequence"))
  | .thread :: fields, [] => draftOfItems kind d (count + 1) fields []
  | _ :: _, [] =>
    .error (.wrongLength count ("struct variant Step::" ++ kind.title ++ " with " ++ elements kind.fields.length))
  | field :: fields, v :: rest =>
    match d.put field v with
    | .ok d => draftOfItems kind d (count + 1) fields rest
    | .error fault => .error fault

def ofContent (kind : Kind) : Content → Except DataFault Step
  | .members members => do (← draftOfMembers kind {} members).complete kind
  | .items items => do (← draftOfItems kind {} 0 kind.fields items).complete kind

/-! ## Reading -/

def readKind : Reader Kind := Reader.scalar fun
  | .text s => Kind.ofText s
  | v => .error (.wrongType v "variant identifier")

/-- The kind and the fields of a step written as a list. -/
def itemsReader (depth : Nat) : Reader (Kind × Content) := do
  if ← Reader.nextItem true then
    let kind ← readKind
    return (kind, .items (← Reader.items (Reader.value depth) false))
  else Reader.ofData (.error (.missingField "kind"))

/-- Reads a member; the kind and the other members read before come with it. -/
def readMember (depth : Nat) (key : String) (state : Option Kind × List (String × Value)) :
    Reader (Option Kind × List (String × Value)) := do
  let (kind, members) := state
  if key = "kind" then
    if kind.isSome then Reader.ofData (.error (.duplicateField key))
    Reader.colon
    return (some (← readKind), members)
  else
    Reader.colon
    return (kind, (key, ← Reader.value depth) :: members)

/-- The kind and the fields of a step written as an object. -/
def membersReader (depth : Nat) : Reader (Kind × Content) := do
  match ← Reader.foldMembers (readMember depth) (none, []) with
  | (some kind, members) => return (kind, .members members.reverse)
  | (none, _) => Reader.ofData (.error (.missingField "kind"))

/-- A step. It is read whole before its fields are looked at. -/
def reader (depth : Nat) : Reader Step := do
  let (kind, content) ← Reader.structured "internally tagged enum Step" depth itemsReader membersReader
  Reader.ofData (ofContent kind content)

end Step

end TaintReplay
