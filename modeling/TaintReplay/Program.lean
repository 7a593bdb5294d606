import TaintReplay.CommandLine
import TaintReplay.Replay

/-!
# The program

`Program.run` is the whole program as a function of its arguments, an environment variable and the files: it parses the
command line, loads the options, replays the script, and says what is printed and what is written.
-/

namespace TaintReplay

/-- What the program finds around it. -/
structure Surroundings where
  /-- The options file that the environment names. -/
  optionsPath : Option String := none
  /-- The contents of a file, if it can be read. -/
  file : String → Option (List UInt8)
  /-- Can a file be written? -/
  writable : String → Bool

/-- What the program leaves behind. -/
structure ProgramResult where
  exitCode : Nat
  lines : List Line := []
  /-- The report, if it is printed behind the lines. -/
  printed : String := ""
  errorText : String := ""
  /-- The file that is written, and its contents. -/
  written : Option (String × String) := none

/-- A line as it is printed: a time stamp, the level, the part of the program and the text. -/
def Line.render (stamp : String) (l : Line) : String :=
  let level := l.level.name
  let filling := String.ofList (List.replicate (5 - level.length) ' ')
  stamp ++ " " ++ level ++ filling ++ " [" ++ l.component.name ++ "] " ++ l.text ++ "\n"

/-- What is printed, with a time stamp in front of every line. -/
def ProgramResult.output (r : ProgramResult) (stamp : String) : String :=
  String.join (r.lines.map (·.render stamp)) ++ r.printed

namespace Program

/-- The finest level that is shown. -/
def finest (verbosity : Nat) : Level :=
  match verbosity with
  | 0 => .warn
  | 1 => .info
  | 2 => .debug
  | _ => .trace

/-- The lines that are shown. -/
def shown (verbosity : Nat) (lines : List Line) : List Line :=
  lines.filter fun l => l.level.rank ≤ (finest verbosity).rank

/-- The options: from the file that the user names, else from the one that the environment names, else the defaults. -/
def loadOptions (a : Arguments) (s : Surroundings) : Except Failure Options :=
  match a.options, s.optionsPath.filter (· != "") with
  | some path, _ => Options.load (s.file path)
  | none, some path => Options.load (s.file path)
  | none, none => .ok {}

def failed (verbosity : Nat) (lines : List Line) (text : String) : ProgramResult :=
  { exitCode := 1, lines := shown verbosity lines ++ [⟨.error, .program, text⟩] }

/-- Replays and delivers the report. -/
def deliver (a : Arguments) (s : Surroundings) (options : Options) : ProgramResult :=
  let file := s.file a.image
  let source := if a.elf then .elf file else .flat a.base file
  match replayFiles (s.file a.script) source options with
  | (lines, .error e) => failed a.verbosity lines e.message
  | (lines, .ok report) =>
    match a.output with
    | none => { exitCode := 0, lines := shown a.verbosity lines, printed := report }
    | some path =>
      if s.writable path then { exitCode := 0, lines := shown a.verbosity lines, written := some (path, report) }
      else failed a.verbosity lines Failure.missingFile.message

def run (arguments : List String) (s : Surroundings) : ProgramResult :=
  match Arguments.parse arguments with
  | .error .help => { exitCode := UsageFault.help.exitCode, printed := UsageFault.help.message }
  | .error fault => { exitCode := fault.exitCode, errorText := fault.message }
  | .ok a =>
    match loadOptions a s with
    | .error e => failed a.verbosity [] ("Failed to load options: " ++ e.message)
    | .ok options => deliver a s options

/-- The files that the program reads. -/
def inputs (arguments : List String) (optionsPath : Option String) : List String :=
  match Arguments.parse arguments with
  | .error _ => []
  | .ok a => [a.script, a.image] ++ a.options.toList ++ optionsPath.toList

end Program

end TaintReplay
