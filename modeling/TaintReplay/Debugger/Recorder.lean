import Std.Data.TreeMap
import Std.Data.TreeSet
import TaintReplay.Analysis.Marks
import TaintReplay.Debugger.Basic
import TaintReplay.Image
import TaintReplay.X86.Decode

/-!
# A debugger without a process

A `Recorder` stands in for a debugger: its memory is an image, registers and thread are what they were last set to, and
what it is asked to do is recorded instead of done. Registers are kept by full register, so that all aliases of one
agree (`register_setRegister`).
-/

namespace TaintReplay

structure Recorder where
  image : Image := {}
  registers : RegisterMap UInt64 := {}
  thread : UInt64 := 0
  breakpoints : Std.TreeSet UInt64 := {}
  /-- Answers to the next questions. -/
  answers : List Answer := []
  stepTracing : Bool := false
  colors : Std.TreeMap UInt64 UInt32 := {}
  comments : Std.TreeMap UInt64 (List String) := {}
  /-- New names of functions, by their start. -/
  renames : Std.TreeMap UInt64 String := {}
  requests : Array Request := #[]
  questions : Array String := #[]
  log : Array Line := #[]

namespace Recorder

def say (r : Recorder) (l : Line) : Recorder := { r with log := r.log.push l }

/-! ## The process -/

def register (r : Recorder) : RegisterFile := r.registers.get?

def setRegister (r : Recorder) (name : String) (value : UInt64) : Recorder :=
  { r with registers := r.registers.insert (.ofName name) value }

/-- Moves the process to a program counter on a thread, as an event that stops it does. -/
def stopAt (r : Recorder) (thread pc : UInt64) : Recorder := { r with thread }.setRegister Register.counter.name pc

def addFunction (r : Recorder) (f : FunctionRange) : Recorder := { r with image := r.image.addFunction f }

/-- Writes memory and says how many bytes were written. -/
def write (r : Recorder) (address : UInt64) (bytes : List UInt8) : Recorder × Nat :=
  let (image, count) := r.image.write address bytes
  ({ r with image }, count)

/-- The length of the instruction at an address, as far as its bytes can be read. -/
def instructionLength (r : Recorder) (address : UInt64) : Option Nat :=
  (X86.decode (r.image.read address maxInstructionLength)).map (·.length)

theorem register_setRegister (r : Recorder) (name : String) (value : UInt64) (s : Register) :
    (r.setRegister name value).register s = if s = .ofName name then some value else r.register s :=
  r.registers.get?_insert _ _ _

/-! ## Breakpoints and requests -/

def hasBreakpoint (r : Recorder) (address : UInt64) : Bool := r.breakpoints.contains address

def addBreakpoint (r : Recorder) (address : UInt64) : Recorder :=
  { r with breakpoints := r.breakpoints.insert address }

def removeBreakpoint (r : Recorder) (address : UInt64) : Recorder :=
  { r with breakpoints := r.breakpoints.erase address }

theorem hasBreakpoint_addBreakpoint (r : Recorder) (pc address : UInt64) :
    (r.addBreakpoint pc).hasBreakpoint address = if pc = address then true else r.hasBreakpoint address := by
  by_cases h : pc = address
  · simp [hasBreakpoint, addBreakpoint, h]
  · have hcompare : compare pc address ≠ .eq := fun hc => h (Std.compare_eq_iff_eq.1 hc)
    simp [hasBreakpoint, addBreakpoint, h, hcompare]

theorem hasBreakpoint_removeBreakpoint (r : Recorder) (pc address : UInt64) :
    (r.removeBreakpoint pc).hasBreakpoint address = if pc = address then false else r.hasBreakpoint address := by
  by_cases h : pc = address
  · simp [hasBreakpoint, removeBreakpoint, h]
  · have hcompare : compare pc address ≠ .eq := fun hc => h (Std.compare_eq_iff_eq.1 hc)
    simp [hasBreakpoint, removeBreakpoint, h, hcompare]

/-- Records a request. Two of them switch step tracing. -/
def request (r : Recorder) (q : Request) : Recorder :=
  let stepTracing := match q with
    | .enableStepTrace => true
    | .disableStepTrace => false
    | _ => r.stepTracing
  { r with stepTracing, requests := r.requests.push q }

/-! ## The user -/

def pushAnswer (r : Recorder) (a : Answer) : Recorder := { r with answers := r.answers ++ [a] }

/-- Asks the user. A question without an answer counts as confirmed. -/
def ask (r : Recorder) (question : String) : Recorder × Answer :=
  let r := { r.say ⟨.debug, .debugger, question⟩ with questions := r.questions.push question }
  match r.answers with
  | [] => (r, .yes)
  | a :: answers => ({ r with answers }, a)

def setColor (r : Recorder) (address : UInt64) (color : UInt32) : Recorder :=
  { r with colors := r.colors.insert address color }

def addComment (r : Recorder) (address : UInt64) (text : String) : Recorder :=
  { r with comments := r.comments.insert address (r.comments.getD address [] ++ [text]) }

def functionName (r : Recorder) (address : UInt64) : Option String :=
  (r.image.functionAt address).map fun f => r.renames.getD f.start f.name

def renameFunction (r : Recorder) (address : UInt64) (name : String) : Recorder × Bool :=
  match r.image.functionAt address with
  | some f => ({ r with renames := r.renames.insert f.start name }, true)
  | none => (r, false)

instance : Debugger Recorder where
  register := register
  read r := r.image.read
  instructionLength := instructionLength
  currentThread := thread
  hasBreakpoint := hasBreakpoint
  addBreakpoint := addBreakpoint
  removeBreakpoint := removeBreakpoint
  request := request
  ask := ask
  setColor := setColor
  addComment := addComment
  functionName := functionName
  renameFunction := renameFunction
  say := say

end Recorder

end TaintReplay
