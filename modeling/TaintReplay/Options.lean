/-!
# Options

What the user can choose about tracing: what is reported, which sides of the analysis run, how many instructions are
traced before a question, and what happens after a pending action.
-/

namespace TaintReplay

structure Options where
  showInfo : Bool := true
  showDetail : Bool := false
  paintExecuted : Bool := false
  commentControlled : Bool := true
  commentExpressions : Bool := false
  renameTainted : Bool := true
  useTaint : Bool := true
  useSymbols : Bool := false
  /-- How many instructions are traced before the user is asked; no limit if missing or zero. -/
  limit : Option UInt64 := some 1000
  colorTainted : UInt32 := 0x99ffcc
  colorCondition : UInt32 := 0xb8b8ff
  colorExecuted : UInt32 := 0xfff0dc
  /-- Step on after a pending action, instead of letting the process run. -/
  stepAfterAction : Bool := true
  /-- Part of the text of instructions that switch the processor's mode; stepping goes over them. -/
  modeSwitch : String := "call dword ptr fs:[0xc0]"
  deriving DecidableEq, Repr, Inhabited

/-- The number of instructions of one trace window, if there is a limit. -/
def Options.window? (o : Options) : Option Nat :=
  match o.limit with
  | some limit => if limit = 0 then none else some limit.toNat
  | none => none

end TaintReplay
