import TaintReplay.Analysis.Decision
import TaintReplay.Analysis.Flow
import TaintReplay.Analysis.Marks
import TaintReplay.X86.Decode

/-!
# The shadow state

A `Shadow` keeps for every register and every byte of memory whether it is tainted and, while the symbolic side is on,
the number of the last expression written to it. Expressions are texts; nothing here solves them. `Shadow.evaluate`
spreads both along the flow of one instruction.
-/

namespace TaintReplay

open Text

structure Shadow where
  taintOn : Bool := true
  symbolicOn : Bool := false
  taint : Marks Unit := {}
  symbols : Marks Nat := {}
  /-- The texts of the expressions; an expression's number is its place here. -/
  expressions : Array String := #[]
  /-- How many of the expressions are variables. -/
  variableCount : Nat := 0

namespace Shadow

/-- The text of an expression, with its number in front. -/
def numbered (number : Nat) (text : String) : String := "#" ++ toString number ++ " = " ++ text

def addExpression (s : Shadow) (text : String) : Shadow × Nat :=
  ({ s with expressions := s.expressions.push (numbered s.expressions.size text) }, s.expressions.size)

/-- Adds a variable that stands for the unknown value at a source. -/
def addVariable (s : Shadow) (origin : String) : Shadow × Nat :=
  let name := "SymVar_" ++ toString s.variableCount ++ " (" ++ origin ++ ")"
  { s with variableCount := s.variableCount + 1 }.addExpression name

/-- The taint mark of a location that is tainted or not. -/
def taintMark (tainted : Bool) : Option Unit := if tainted then some () else none

/-- Spreads taint along a flow: the destinations become tainted if a source is, and clean otherwise. Says whether they
became tainted. -/
def spreadTaint (s : Shadow) (f : Flow) : Shadow × Bool :=
  if s.taintOn then
    let tainted := f.sources.any s.taint.touches
    ({ s with taint := f.destinations.foldl (fun m l => m.put l (taintMark tainted)) s.taint }, tainted)
  else (s, false)

/-- The newest expression that a location holds part of. -/
def symbolAt (s : Shadow) (l : Location) : Option Nat := (s.symbols.marksAt l).max?

/-- Gives every destination an expression of its own, with the same right-hand side. -/
def assign (s : Shadow) (value : String) : List Location → Shadow × List Nat
  | [] => (s, [])
  | l :: ls =>
    let (s, number) := s.addExpression (l.render ++ " := " ++ value)
    let (s, numbers) := { s with symbols := s.symbols.put l (some number) }.assign value ls
    (s, number :: numbers)

/-- Spreads expressions along a flow: each destination gets a new expression if a source holds one, and loses its own
otherwise. Gives the new expressions' numbers, if there was a source. -/
def spreadSymbols (s : Shadow) (f : Flow) (text : String) : Shadow × Option (List Nat) :=
  if s.symbolicOn then
    match f.sources.filterMap s.symbolAt with
    | [] => ({ s with symbols := f.destinations.foldl (fun m l => m.put l none) s.symbols }, none)
    | parents =>
      let references := String.intercalate ", " (parents.map fun n => "#" ++ toString n)
      let (s, numbers) := s.assign (text ++ " (" ++ references ++ ")") f.destinations
      (s, some numbers)
  else (s, none)

/-- Records the decision of a conditional branch. A symbolic one becomes the newest expression of the program
counter. -/
def recordDecision (s : Shadow) (d : X86.Instruction) (i : Instruction) (registers : RegisterFile) :
    Shadow × Instruction :=
  if i.branch then
    let i := { i with taken := (d.opcode.branch?.map (X86.Branch.isTaken · registers)).getD false }
    if i.symbolized then
      let taken := address (i.target.getD i.next).toNat
      let text := Register.counter.name ++ " := ite(" ++ i.text ++ ", " ++ taken ++ ", " ++ address i.next.toNat ++ ")"
      let (s, number) := s.addExpression text
      ({ s with symbols := s.symbols.put (.register .counter) (some number) },
        { i with expressions := i.expressions ++ [number] })
    else (s, i)
  else (s, i)

/-- The operands as they were before the instruction, with their taint. -/
def operandsOf (s : Shadow) (d : X86.Instruction) (next : UInt64) (registers : RegisterFile) : List Operand :=
  (resolve d next (some registers)).map fun (kind, location) =>
    { kind, tainted := s.taintOn && s.taint.touches location }

/-- Evaluates a decoded instruction. -/
def step (s : Shadow) (d : X86.Instruction) (i : Instruction) (registers : RegisterFile) : Shadow × Instruction :=
  let flow := Flow.of d i.next registers
  let operands := s.operandsOf d i.next registers
  let (s, tainted) := s.spreadTaint flow
  let (s, numbers) := s.spreadSymbols flow i.text
  let i := { i with operands, tainted, symbolized := numbers.isSome, expressions := numbers.getD [] }
  s.recordDecision d i registers

/-- The decoded instruction of a record, whose bytes must be one instruction. -/
def decoded (i : Instruction) : Except AnalysisError X86.Instruction :=
  match X86.decodeWhole i.opcode with
  | some d => .ok d
  | none => .error (.invalidOpcode i.opcode)

/-- The target of a conditional branch: its first immediate operand. -/
def targetOf (operands : List Operand) : Option UInt64 :=
  operands.findSome? fun o => match o.kind with
    | .immediate target => some target
    | _ => none

/-- Fills in the record of a decoded instruction. -/
def describe (d : X86.Instruction) (i : Instruction) : Instruction :=
  let next := i.address + UInt64.ofNat i.opcode.length
  let operands := (resolve d next none).map fun (kind, _) => { kind }
  let branch := d.opcode.branch?.isSome
  { i with text := d.text, next, operands, branch, target := if branch then targetOf operands else none }

def disassemble (i : Instruction) : Except AnalysisError Instruction := (decoded i).map (describe · i)

def evaluate (s : Shadow) (i : Instruction) (registers : RegisterFile) : Except AnalysisError (Shadow × Instruction) :=
  (decoded i).map fun d => s.step d i registers

/-- Marks one source, as far as the two sides are on. -/
def addSource (s : Shadow) (l : Location) (origin : String) : Shadow :=
  let s := if s.taintOn then { s with taint := s.taint.put l (taintMark true) } else s
  if s.symbolicOn then
    let (s, number) := s.addVariable origin
    { s with symbols := s.symbols.put l (some number) }
  else s

def taintRegister (s : Shadow) (name : String) : Except AnalysisError Shadow :=
  match Alias.find? name with
  | some a => .ok (s.addSource (.register a.full) a.full.name)
  | none => .error (.unknownRegister name)

/-- Makes every byte of a range a source of its own. -/
def taintMemory (s : Shadow) (start : UInt64) (length : Nat) : Shadow :=
  (List.range length).foldl (fun s i =>
    let byte := start + UInt64.ofNat i
    s.addSource (.memory byte 1) (address byte.toNat)) s

/-- Forgets all marks and expressions; the two switches stay as they are. -/
def reset (s : Shadow) : Shadow := { taintOn := s.taintOn, symbolicOn := s.symbolicOn }

instance : Analyzer Shadow where
  disassemble _ i := disassemble i
  evaluate := evaluate
  pathSymbol s := s.symbols.get? (.register .counter)
  registerSymbol s r := s.symbols.get? (.register r)
  expressionTexts s i := i.expressions.filterMap fun n => s.expressions[n]?
  reset := reset
  setTaint s on := { s with taintOn := on }
  setSymbolic s on := { s with symbolicOn := on }
  isTaintOn := taintOn
  isSymbolicOn := symbolicOn
  taintRegister := taintRegister
  taintMemory := taintMemory
  isRegisterTainted s name := (s.taint.get? (.register (.ofName name))).isSome
  isByteTainted s a := (s.taint.get? (.byte a)).isSome
  newTexts s t := (t.expressions.extract s.expressions.size t.expressions.size).toList

end Shadow

end TaintReplay
