import TaintReplay.FunctionName
import TaintReplay.Session.Basic

/-!
# Tracing one instruction

`Session.trace` fetches the instruction at an address, has it disassembled and evaluated, reports what was found, and
records a path constraint for a symbolic branch. Nothing happens while tracing is not armed. A trace that fails leaves
only the current instruction behind.
-/

namespace TaintReplay

open Text

/-- What came of a trace. -/
inductive Outcome where
  /-- Tracing was not armed. -/
  | dormant
  | abandoned (cause : TraceError)
  | traced (tainted symbolized : Bool) (constraint : Option PathConstraint)
  deriving DecidableEq, Repr

def Outcome.isTraced : Outcome → Bool
  | traced _ _ _ => true
  | _ => false

/-- The record of the instruction at an address, as far as the debugger can give it. -/
def fetch {η : Type} [Debugger η] (debugger : η) (address thread : UInt64) : Except TraceError Instruction :=
  match Debugger.instructionLength debugger address with
  | some length =>
    if 0 < length ∧ length ≤ maxInstructionLength then
      let bytes := Debugger.read debugger address maxInstructionLength
      if bytes.length < length then .error (.decode address)
      else .ok ({ address, thread : Instruction }.withOpcode (bytes.take length))
    else .error (.decode address)
  | none => .error (.decode address)

namespace Session

variable {α ε η : Type} [Analyzer ε] [Debugger η]

/-- Gives up a trace. -/
def abandon (s : Session α ε η) (cause : TraceError) : Session α ε η × Outcome :=
  (s.say .warn .tracing ("[!] " ++ cause.message), .abandoned cause)

def commentControlled (s : Session α ε η) (i : Instruction) : Session α ε η :=
  let controlled := i.controlled.map fun o => o.kind.render
  if s.options.commentControlled && !controlled.isEmpty then
    let text := "Controlled operands: " ++ String.intercalate ", " controlled
    { s with debugger := Debugger.addComment s.debugger i.address text }
  else s

def commentExpressions (s : Session α ε η) (i : Instruction) : Session α ε η :=
  let texts := Analyzer.expressionTexts s.analysis i
  if s.options.commentExpressions && !texts.isEmpty then
    { s with debugger := Debugger.addComment s.debugger i.address (String.intercalate "\n" texts) }
  else s

/-- Gives the function at an address the name of a tainted one, unless it has such a name. -/
def tagFunction (s : Session α ε η) (address : UInt64) : Session α ε η :=
  match Debugger.functionName s.debugger address with
  | none => s
  | some name =>
    if FunctionName.isTagged name then s
    else
      let newName := FunctionName.tagged s.progress.renamed name
      match Debugger.renameFunction s.debugger address newName with
      | (debugger, false) => { s with debugger }
      | (debugger, true) =>
        let s := { s with debugger }.detail .tracing ("[+] Renamed " ++ name ++ " to " ++ newName)
        { s with progress := { s.progress with renamed := s.progress.renamed + 1 } }

/-- Reports an instruction that is tainted or symbolic. -/
def highlight (s : Session α ε η) (i : Instruction) : Session α ε η :=
  if i.tainted || i.symbolized then
    let s := { s with progress := { s.progress with marked := true } }
    let word := if i.tainted then "tainted" else "symbolized"
    let s := s.inform .tracing ("[!] Instruction " ++ word ++ " at " ++ address i.address.toNat)
    let s := if s.options.renameTainted then s.tagFunction i.address else s
    let color := if i.branch then s.options.colorCondition else s.options.colorTainted
    { s with debugger := Debugger.setColor s.debugger i.address color }
  else s

/-- Logs the constraint of a symbolic branch. -/
def recordBranch (s : Session α ε η) (i : Instruction) : Session α ε η × Option PathConstraint :=
  match i.successors with
  | none =>
    (s.say .warn .tracing ("[!] Branch at " ++ address i.address.toNat ++
      " has no immediate target, no constraint recorded"), none)
  | some (taken, notTaken) =>
    let s := s.inform .tracing ("[+] Branch symbolized detected at " ++ address i.address.toNat ++ ": " ++
      address i.next.toNat ++ " or " ++ address (i.target.getD i.next).toNat ++ ", Taken:" ++
      if i.taken then "Yes" else "No")
    let (s, symbol) := match Analyzer.pathSymbol s.analysis with
      | some symbol => (s, symbol)
      | none => (s.say .debug .tracing "no symbolic expression for the program counter, using #0", 0)
    let constraint := { symbol, source := i.address, taken, notTaken }
    ({ s with progress := { s.progress with constraints := s.progress.constraints ++ [constraint] } }, some constraint)

/-- Reports an evaluated instruction and makes it the current one. -/
def report (s : Session α ε η) (i : Instruction) : Session α ε η × Outcome :=
  let s := (s.commentControlled i).commentExpressions i
  let i := i.trust
  let s := s.highlight i
  let (s, constraint) := if i.branch && i.symbolized then s.recordBranch i else (s, none)
  (s.setCurrent i, .traced i.tainted i.symbolized constraint)

/-- Traces the instruction at an address. The record of the instruction before it is gone even if this fails. -/
def trace (s : Session α ε η) (address thread : UInt64) : Session α ε η × Outcome :=
  if s.progress.armed then
    let s := s.setCurrent { address, thread }
    match fetch s.debugger address thread with
    | .error cause => s.abandon cause
    | .ok i =>
      match Analyzer.disassemble s.analysis i with
      | .error cause => (s.setCurrent i).abandon (.disassembly address i.opcode cause)
      | .ok i =>
        let s := s.inform .tracing ("[+] Tracing " ++ i.render)
        match Analyzer.evaluate s.analysis i (Debugger.register s.debugger) with
        | .error cause => (s.setCurrent i).abandon (.semantics address i.opcode cause)
        | .ok (analysis, i) => (s.advance analysis).report i
  else (s, .dormant)

end Session

end TaintReplay
