/-!
# Log lines

A `Line` says how important it is, which part of the program it comes from, and its text.
-/

namespace TaintReplay

/-- The importance of a line, from errors down to the finest detail. -/
inductive Level where
  | error
  | warn
  | info
  | debug
  | trace
  deriving DecidableEq, Repr

def Level.name : Level → String
  | error => "ERROR"
  | warn => "WARN"
  | info => "INFO"
  | debug => "DEBUG"
  | trace => "TRACE"

/-- The number of a level; finer levels have higher numbers. -/
def Level.rank : Level → Nat
  | error => 1
  | warn => 2
  | info => 3
  | debug => 4
  | trace => 5

/-- The parts of the program that write lines. -/
inductive Component where
  | program
  | events
  | tracing
  | session
  | replay
  | debugger
  | image
  | analysis
  deriving DecidableEq, Repr

/-- The name that log files show for a part of the program. -/
def Component.name : Component → String
  | program => "taintrace"
  | events => "taintrace::dispatcher"
  | tracing => "taintrace::tracer"
  | session => "taintrace::session"
  | replay => "taintrace::replay"
  | debugger => "taintrace::replay::host"
  | image => "taintrace::replay::image"
  | analysis => "taintrace::engine::shadow"

structure Line where
  level : Level
  component : Component
  text : String
  deriving DecidableEq, Repr

/-- The line with its level alone in front. -/
def Line.short (l : Line) : String := l.level.name ++ " " ++ l.text

end TaintReplay
