import TaintReplay.Analysis.Shadow
import TaintReplay.Debugger.Recorder
import TaintReplay.Image.Elf
import TaintReplay.Report
import TaintReplay.Script.Json
import TaintReplay.Session.Command

/-!
# Replaying a script

A replay drives a session of the shadow analysis with a recorder in the place of a debugger. `Replay.start` is the
session before the first step, `Replay.apply` performs one step, and `Replay.run` all of them.
-/

namespace TaintReplay

open Text

/-- A pending action that makes a register a source. -/
structure RegisterSource where
  register : String
  deriving DecidableEq, Repr

instance {ε η : Type} [Analyzer ε] [Debugger η] : Action RegisterSource ε η where
  fire action pc analysis debugger :=
    let say (debugger : η) (level : Level) (text : String) : η := Debugger.say debugger ⟨level, .replay, text⟩
    match Analyzer.taintRegister analysis action.register with
    | .ok tainted =>
      let debugger := announce analysis tainted debugger
      { action
        analysis := tainted
        debugger := say debugger .info ("[+] Tainting " ++ action.register ++ " at " ++ address pc.toNat)
        armed := true }
    | .error cause => { action, analysis, debugger := say debugger .warn ("[!] " ++ cause.message), armed := false }

/-- A session that is replayed. -/
abbrev Replay := Session RegisterSource Shadow Recorder

namespace Replay

/-- The session before the first step. -/
def start (options : Options) (image : Image) : Replay := { options, analysis := {}, debugger := { image } }

/-- Stops the process where an event reports it, and delivers the event. -/
def deliver (r : Replay) (e : Event) : Replay :=
  let debugger := match e.stop? with
    | some (thread, pc) => r.debugger.stopAt thread pc
    | none => r.debugger
  Session.handle { r with debugger } e

def apply (r : Replay) : Step → Replay
  | .event e => deliver r e
  | .registers values =>
    { r with debugger := values.foldl (fun d (name, value) => d.setRegister name value) r.debugger }
  | .write start bytes =>
    let (debugger, count) := r.debugger.write start bytes
    let r := { r with debugger }
    if count = bytes.length then r
    else r.say .warn .replay ("[!] Write at " ++ address start.toNat ++ " is not fully mapped")
  | .function f => { r with debugger := r.debugger.addFunction f }
  | .setBreakpoint a => { r with debugger := r.debugger.addBreakpoint a }
  | .breakAndTaint a register => r.breakAndRun a ⟨register⟩
  | .taintRegister register =>
    match r.taintRegister register with
    | .ok (r, _) => r
    | .error cause => r.say .warn .replay ("[!] " ++ cause.message)
  | .taintMemory start length => (r.taintMemory start length.toNat).1
  | .answer yes => { r with debugger := r.debugger.pushAnswer (if yes then .yes else .no) }
  | .enableStepTrace => r.enableStepTrace

/-- The session after some steps. -/
def after (r : Replay) (steps : List Step) : Replay := steps.foldl apply r

/-- Replays a script. Options of its own go before the given ones. -/
def run (script : Script) (image : Image) (options : Options) : Replay :=
  let r := after (start (script.options.getD options) image) script.steps
  r.say .info .replay ("Traced " ++ toString r.progress.total ++ " instructions, " ++
    toString r.progress.constraints.length ++ " path constraints")

end Replay

/-! ## From files to a report -/

/-- Where memory comes from: raw bytes at an address, or an ELF file. The file may be missing. -/
inductive ImageSource where
  | flat (start : UInt64) (file : Option (List UInt8))
  | elf (file : Option (List UInt8))

/-- Why there is no report. -/
inductive Failure where
  | missingFile
  | badText (e : Json.Error)
  | badImage (e : ImageError)

def Failure.message : Failure → String
  | missingFile => "No such file or directory (os error 2)"
  | badText e => e.message
  | badImage e => e.message

/-- The contents of a file that must be there. -/
def present (file : Option (List UInt8)) : Except Failure (List UInt8) :=
  match file with
  | some bytes => .ok bytes
  | none => .error .missingFile

/-- The image of a source, with the lines that loading wrote. -/
def ImageSource.load : ImageSource → List Line × Except Failure Image
  | flat start file =>
    match present file with
    | .ok bytes => ([], (Image.flat start bytes.toArray).mapError .badImage)
    | .error e => ([], .error e)
  | elf file =>
    match present file with
    | .ok bytes =>
      let (lines, image) := Image.ofElf bytes.toArray
      (lines, image.mapError .badImage)
    | .error e => ([], .error e)

/-- The script of a file. -/
def Script.load (file : Option (List UInt8)) : Except Failure Script := do
  (Script.ofBytes (← present file)).mapError .badText

/-- The options of a file. -/
def Options.load (file : Option (List UInt8)) : Except Failure Options := do
  (Options.ofBytes (← present file)).mapError .badText

/-- Lines that name the segments of an image. -/
def Image.lines (image : Image) : List Line := image.segments.map fun s => ⟨.info, .program, "mapped " ++ s.render⟩

/-- Reads a script and an image, replays them, and writes the report; the lines of all parts come with it. -/
def replayFiles (script : Option (List UInt8)) (source : ImageSource) (options : Options) :
    List Line × Except Failure String :=
  match Script.load script with
  | .error e => ([], .error e)
  | .ok script =>
    match source.load with
    | (lines, .error e) => (lines, .error e)
    | (lines, .ok image) =>
      let r := Replay.run script image options
      (lines ++ image.lines ++ r.debugger.log.toList, .ok (Report.of r).toValue.pretty)

end TaintReplay
