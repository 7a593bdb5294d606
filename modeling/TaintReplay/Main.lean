import TaintReplay.Program

/-!
# Running the program

The outer layer: files are read, the program is run on their contents, and what it leaves behind is printed and written.
-/

open TaintReplay

/-- The contents of a file, if it can be read. -/
def readFile? (path : String) : IO (Option (List UInt8)) := do
  try
    let bytes ← IO.FS.readBinFile path
    return some bytes.toList
  catch _ => return none

/-- Writes a file and says whether that was possible. -/
def writeFile? (path contents : String) : IO Bool := do
  try
    IO.FS.writeFile path contents
    return true
  catch _ => return false

def main (arguments : List String) : IO UInt32 := do
  let optionsPath ← IO.getEnv "TAINTRACE_OPTIONS"
  let files ← (Program.inputs arguments optionsPath).mapM fun path => do return (path, ← readFile? path)
  let around : Surroundings :=
    { optionsPath, file := fun path => (files.lookup path).getD none, writable := fun _ => true }
  let result := Program.run arguments around
  let result ← match result.written with
    | none => pure result
    | some (path, report) =>
      if ← writeFile? path report then pure result
      else pure (Program.run arguments { around with writable := fun _ => false })
  let stamp := toString (← IO.monoMsNow)
  (← IO.getStdout).putStr (result.output stamp)
  (← IO.getStderr).putStr result.errorText
  return UInt32.ofNat result.exitCode
