import TaintReplay.Debugger.Recorder
import TaintReplay.Json.Print
import TaintReplay.Session.Basic

/-!
# Reports

A `Report` is what remains of a session: the path constraints, what was shown to the user, what the debugger was asked,
and the last instruction. `Report.toValue` is its form in JSON.
-/

namespace TaintReplay

open Json

structure Report where
  constraints : PathLog
  colors : List (UInt64 × UInt32)
  comments : List (UInt64 × List String)
  renamed : List (UInt64 × String)
  requests : List Request
  questions : List String
  total : Nat
  marked : Bool
  last : Option Instruction
  deriving DecidableEq, Repr

/-- The report of a session with a recorder. -/
def Report.of {α ε : Type} (s : Session α ε Recorder) : Report where
  constraints := s.progress.constraints
  colors := s.debugger.colors.toList
  comments := s.debugger.comments.toList
  renamed := s.debugger.renames.toList
  requests := s.debugger.requests.toList
  questions := s.debugger.questions.toList
  total := s.progress.total
  marked := s.progress.marked
  last := s.progress.current

/-! ## JSON -/

/-- Values by addresses, which become decimal keys. -/
def byAddress {α : Type} (f : α → Value) (entries : List (UInt64 × α)) : Value :=
  .object (entries.map fun (a, x) => (toString a, f x))

def texts (xs : List String) : Value := .array (xs.map .text)

def OperandKind.toValue : OperandKind → Value
  | register name => .object [("register", .text name)]
  | immediate value => .object [("immediate", .word value)]
  | memory address size =>
    .object [("memory", .object [("address", .optional .word address), ("size", .natural size)])]

def Operand.toValue (o : Operand) : Value :=
  .object [("kind", o.kind.toValue), ("tainted", .bool o.tainted), ("trusted", .bool o.trusted)]

def Instruction.toValue (i : Instruction) : Value := .object [
  ("address", .word i.address),
  ("thread_id", .word i.thread),
  ("opcode", .array (i.opcode.map fun b => .natural b.toNat)),
  ("disassembly", .text i.text),
  ("operands", .array (i.operands.map (·.toValue))),
  ("next_address", .word i.next),
  ("branch_target", .optional .word i.target),
  ("tainted", .bool i.tainted),
  ("symbolized", .bool i.symbolized),
  ("branch", .bool i.branch),
  ("condition_taken", .bool i.taken),
  ("expressions", .array (i.expressions.map .natural))]

def PathConstraint.toValue (c : PathConstraint) : Value := .object [
  ("pc_id", .natural c.symbol),
  ("source", .word c.source),
  ("taken", .word c.taken),
  ("not_taken", .word c.notTaken)]

def PathLog.toValue (log : PathLog) : Value := .array (log.map (·.toValue))

def FunctionRange.toValue (f : FunctionRange) : Value :=
  .object [("start", .word f.start), ("end", .word f.stop), ("name", .text f.name)]

def Report.toValue (r : Report) : Value := .object [
  ("constraints", r.constraints.toValue),
  ("colors", byAddress (fun c => .natural c.toNat) r.colors),
  ("comments", byAddress texts r.comments),
  ("renamed", byAddress .text r.renamed),
  ("requests", texts (r.requests.map (·.name))),
  ("questions", texts r.questions),
  ("total_traced", .natural r.total),
  ("something_tainted_or_symbolized", .bool r.marked),
  ("last_instruction", .optional Instruction.toValue r.last)]

end TaintReplay
