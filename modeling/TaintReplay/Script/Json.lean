import TaintReplay.Options.Json
import TaintReplay.Script.Step

/-!
# Scripts in JSON

`Script.ofBytes` reads a script: an object with the members `steps` and, if there are any, `options`, or a list of both.
-/

namespace TaintReplay.Script

open Json

/-- How messages name a script. -/
def title : String := "struct Script"

def stepsReader (depth : Nat) : Reader (List Step) := Reader.list depth Step.reader

def optionsReader (depth : Nat) : Reader (Option Options) := Reader.optional (Options.reader depth)

/-- A script written as a list of options and steps. -/
def itemsReader (depth : Nat) : Reader Script := do
  let options ← if ← Reader.nextItem true then optionsReader depth else pure none
  if ← Reader.nextItem false then return { options, steps := ← stepsReader depth }
  else Reader.ofData (.error (.wrongLength 1 (title ++ " with 2 elements")))

/-- The members of a script that have been read. -/
structure Draft where
  options : Option (Option Options) := none
  steps : Option (List Step) := none

/-- Reads a member. Unknown members are skipped. -/
def readMember (depth : Nat) (key : String) (d : Draft) : Reader Draft := do
  if key = "options" then
    if d.options.isSome then Reader.ofData (.error (.duplicateField key))
    Reader.colon
    return { d with options := some (← optionsReader depth) }
  else if key = "steps" then
    if d.steps.isSome then Reader.ofData (.error (.duplicateField key))
    Reader.colon
    return { d with steps := some (← stepsReader depth) }
  else
    Reader.colon
    Reader.skip
    return d

/-- A script written as an object. -/
def membersReader (depth : Nat) : Reader Script := do
  let d ← Reader.foldMembers (readMember depth) {}
  match d.steps with
  | some steps => return { options := d.options.getD none, steps }
  | none => Reader.ofData (.error (.missingField "steps"))

def reader : Reader Script := Reader.structured title Reader.maxDepth itemsReader membersReader

/-- The script of a text. -/
def ofBytes (bytes : List UInt8) : Except Json.Error Script := reader.run bytes

end TaintReplay.Script
