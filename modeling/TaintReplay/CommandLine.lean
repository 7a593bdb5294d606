import TaintReplay.Text.Quoted

/-!
# The command line

`Arguments.parse` reads the command line: a script, options with one or two hyphens, and switches, of which those with
one hyphen may be joined. An option takes the next argument as its value, or what follows `=`, or what follows its
letter. No option may be repeated but the one for more output.
-/

namespace TaintReplay

open Text

/-- Why a text is no number. -/
inductive NumberFault where
  | empty
  | invalidDigit
  | tooLarge
  deriving DecidableEq, Repr

def NumberFault.message : NumberFault → String
  | empty => "cannot parse integer from empty string"
  | invalidDigit => "invalid digit found in string"
  | tooLarge => "number too large to fit in target type"

namespace Number

/-- The value of a digit in a base of at most sixteen. -/
def digit? (base : Nat) (c : Char) : Option Nat :=
  let value :=
    if '0' ≤ c ∧ c ≤ '9' then some (c.toNat - '0'.toNat)
    else if 'a' ≤ c ∧ c ≤ 'f' then some (c.toNat - 'a'.toNat + 10)
    else if 'A' ≤ c ∧ c ≤ 'F' then some (c.toNat - 'A'.toNat + 10)
    else none
  value.filter (· < base)

/-- Reads digits behind a number read so far. The first fault in the text counts. -/
def readDigits (base value : Nat) : List Char → Except NumberFault Nat
  | [] => .ok value
  | c :: rest =>
    match digit? base c with
    | none => .error .invalidDigit
    | some d => if value * base + d < UInt64.size then readDigits base (value * base + d) rest else .error .tooLarge

/-- Reads a number of 64 bits, which may have a plus sign. -/
def read (base : Nat) (digits : List Char) : Except NumberFault UInt64 :=
  match digits with
  | [] => .error .empty
  | ['+'] => .error .invalidDigit
  | '+' :: rest => (readDigits base 0 rest).map UInt64.ofNat
  | digits => (readDigits base 0 digits).map UInt64.ofNat

end Number

/-- The blank characters. -/
def isBlankChar (c : Char) : Bool :=
  let n := c.toNat
  (9 ≤ n && n ≤ 13) || (0x2000 ≤ n && n ≤ 0x200a) ||
    [0x20, 0x85, 0xa0, 0x1680, 0x2028, 0x2029, 0x202f, 0x205f, 0x3000].contains n

/-- The text without blanks at its ends. -/
def trimmed (s : String) : String :=
  String.ofList ((s.toList.dropWhile isBlankChar).reverse.dropWhile isBlankChar).reverse

/-- Reads an address: a decimal number, or a hexadecimal one behind `0x`. -/
def readAddress (s : String) : Except NumberFault UInt64 :=
  match (trimmed s).toList with
  | '0' :: 'x' :: digits => Number.read 16 digits
  | digits => Number.read 10 digits

/-- Why the program does not start. -/
inductive UsageFault where
  /-- The user has asked for help. -/
  | help
  | badUse
  | badBase (value : String) (fault : NumberFault)
  deriving DecidableEq, Repr

def UsageFault.message : UsageFault → String
  | help => "Usage: taintrace [OPTIONS] --image <IMAGE> <SCRIPT>\n"
  | badUse => "error: The arguments are not valid\n\nFor more information try --help\n"
  | badBase value fault =>
    "error: Invalid value " ++ quoted value ++ " for '--base <BASE>': invalid address " ++ quoted (trimmed value) ++
      ": " ++ fault.message ++ "\n\nFor more information try --help\n"

/-- The exit code of the program when it does not start. -/
def UsageFault.exitCode : UsageFault → Nat
  | help => 0
  | _ => 2

/-- Options with a value. -/
inductive Setting where
  | image
  | base
  | options
  | output
  deriving DecidableEq, Repr

/-- Options without a value. -/
inductive Switch where
  | elf
  | progress
  | verbose
  | help
  deriving DecidableEq, Repr

inductive OptionKind where
  | setting (s : Setting)
  | switch (s : Switch)
  deriving DecidableEq, Repr

def OptionKind.ofName? (name : String) : Option OptionKind :=
  match name with
  | "image" => some (.setting .image)
  | "base" => some (.setting .base)
  | "options" => some (.setting .options)
  | "output" => some (.setting .output)
  | "elf" => some (.switch .elf)
  | "progress" => some (.switch .progress)
  | "verbose" => some (.switch .verbose)
  | "help" => some (.switch .help)
  | _ => none

def OptionKind.ofLetter? (c : Char) : Option OptionKind :=
  match c with
  | 'i' => some (.setting .image)
  | 'b' => some (.setting .base)
  | 'o' => some (.setting .options)
  | 'e' => some (.switch .elf)
  | 'p' => some (.switch .progress)
  | 'v' => some (.switch .verbose)
  | 'h' => some (.switch .help)
  | _ => none

structure Arguments where
  script : String
  image : String
  /-- Where raw bytes are mapped. -/
  base : UInt64
  elf : Bool
  options : Option String
  output : Option String
  verbosity : Nat
  deriving DecidableEq, Repr

namespace Arguments

/-- The arguments that have been read. -/
structure Draft where
  script : Option String := none
  image : Option String := none
  base : Option String := none
  options : Option String := none
  output : Option String := none
  elf : Bool := false
  progress : Bool := false
  verbosity : Nat := 0

namespace Draft

/-- Fills a place that must be empty. -/
def once (place : Option String) (value : String) : Except UsageFault (Option String) :=
  match place with
  | none => .ok (some value)
  | some _ => .error .badUse

def set (d : Draft) (s : Setting) (value : String) : Except UsageFault Draft :=
  match s with
  | .image => (once d.image value).map fun image => { d with image }
  | .base => (once d.base value).map fun base => { d with base }
  | .options => (once d.options value).map fun options => { d with options }
  | .output => (once d.output value).map fun output => { d with output }

def turnOn (d : Draft) (s : Switch) : Except UsageFault Draft :=
  match s with
  | .elf => if d.elf then .error .badUse else .ok { d with elf := true }
  | .progress => if d.progress then .error .badUse else .ok { d with progress := true }
  | .verbose => .ok { d with verbosity := d.verbosity + 1 }
  | .help => .error .help

def setScript (d : Draft) (value : String) : Except UsageFault Draft :=
  (once d.script value).map fun script => { d with script }

/-- Reads joined letters. An option with a value takes the rest of them, or waits for the next argument. -/
def letters (d : Draft) : List Char → Except UsageFault (Draft × Option Setting)
  | [] => .ok (d, none)
  | c :: rest =>
    match OptionKind.ofLetter? c with
    | none => .error .badUse
    | some (.switch s) => do letters (← d.turnOn s) rest
    | some (.setting s) =>
      match rest with
      | [] => .ok (d, some s)
      | '=' :: value => (d.set s (String.ofList value)).map (·, none)
      | value => (d.set s (String.ofList value)).map (·, none)

/-- Reads a name and the value behind `=`, if there is one. -/
def long (d : Draft) (name : List Char) : Except UsageFault (Draft × Option Setting) :=
  let value := (name.dropWhile (· != '=')).drop 1
  let joined := name.contains '='
  match OptionKind.ofName? (String.ofList (name.takeWhile (· != '='))) with
  | none => .error .badUse
  | some (.switch s) => if joined then .error .badUse else (d.turnOn s).map (·, none)
  | some (.setting s) => if joined then (d.set s (String.ofList value)).map (·, none) else .ok (d, some s)

/-- What an argument is. -/
inductive Form where
  | plain
  | letters (cs : List Char)
  | long (name : List Char)
  /-- Two hyphens alone: what follows are no options. -/
  | stop

def Form.of (argument : String) : Form :=
  match argument.toList with
  | ['-', '-'] => stop
  | '-' :: '-' :: name => long name
  | '-' :: c :: rest => letters (c :: rest)
  | _ => plain

/-- Reads the arguments; `waiting` is an option whose value comes next. -/
def read (d : Draft) (waiting : Option Setting) : List String → Except UsageFault Draft
  | [] => if waiting.isSome then .error .badUse else .ok d
  | argument :: rest =>
    match Form.of argument, waiting with
    | .plain, some s => do (← d.set s argument).read none rest
    | .plain, none => do (← d.setScript argument).read none rest
    | _, some _ => .error .badUse
    | .letters cs, none => do
      let (d, waiting) ← d.letters cs
      d.read waiting rest
    | .long name, none => do
      let (d, waiting) ← d.long name
      d.read waiting rest
    | .stop, none => rest.foldlM setScript d

end Draft

/-- Where raw bytes are mapped unless the user says so. -/
def defaultBase : UInt64 := 0x400000

/-- Reads the command line. What is missing counts before what is malformed. -/
def parse (arguments : List String) : Except UsageFault Arguments := do
  let d ← ({} : Draft).read none arguments
  let some script := d.script | throw .badUse
  let some image := d.image | throw .badUse
  let base ← match d.base with
    | none => pure defaultBase
    | some text => (readAddress text).mapError (.badBase text)
  return { script, image, base, elf := d.elf, options := d.options, output := d.output, verbosity := d.verbosity }

end Arguments

end TaintReplay
