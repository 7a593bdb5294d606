import TaintReplay.Json.Print
import TaintReplay.Json.Reader
import TaintReplay.Options

/-!
# Options in JSON

`Options.fields` lists the options in the order in which they are written, each with its name and the way its value is
written and read. From this one table come the writer `Options.toValue` and the reader `Options.ofBytes`. Options that
a text does not mention keep their defaults.
-/

namespace TaintReplay

open Json

namespace Options

/-- An option in a text. -/
structure Field where
  name : String
  write : Options → Value
  read : Reader (Options → Options)

/-- An option whose value has a type of its own. -/
def field {α : Type} (name : String) (toValue : α → Value) (reader : Reader α) (get : Options → α)
    (set : Options → α → Options) : Field where
  name
  write o := toValue (get o)
  read := do
    let x ← reader
    return fun o => set o x

def switch (name : String) : (Options → Bool) → (Options → Bool → Options) → Field :=
  field name .bool (Reader.scalar Value.asBool)

def color (name : String) : (Options → UInt32) → (Options → UInt32 → Options) → Field :=
  field name (fun c => .natural c.toNat) (Reader.scalar Value.asHalfWord)

def fields : List Field := [
  switch "show_debug_info" (·.showInfo) fun o x => { o with showInfo := x },
  switch "show_extra_debug_info" (·.showDetail) fun o x => { o with showDetail := x },
  switch "paint_executed_instructions" (·.paintExecuted) fun o x => { o with paintExecuted := x },
  switch "add_comments_controlled_operands" (·.commentControlled) fun o x => { o with commentControlled := x },
  switch "add_comments_symbolic_expressions" (·.commentExpressions) fun o x => { o with commentExpressions := x },
  switch "rename_tainted_function_names" (·.renameTainted) fun o x => { o with renameTainted := x },
  switch "use_tainting_engine" (·.useTaint) fun o x => { o with useTaint := x },
  switch "use_symbolic_engine" (·.useSymbols) fun o x => { o with useSymbols := x },
  field "limit_instructions_tracing_mode" (Value.optional .word) (Reader.optional (Reader.scalar Value.asWord))
    (·.limit) fun o x => { o with limit := x },
  color "color_tainted" (·.colorTainted) fun o x => { o with colorTainted := x },
  color "color_tainted_condition" (·.colorCondition) fun o x => { o with colorCondition := x },
  color "color_executed_instruction" (·.colorExecuted) fun o x => { o with colorExecuted := x },
  switch "step_into_when_tainting" (·.stepAfterAction) fun o x => { o with stepAfterAction := x },
  field "mode_switch_pattern" .text (Reader.scalar Value.asText) (·.modeSwitch) fun o x => { o with modeSwitch := x }]

def toValue (o : Options) : Value := .object (fields.map fun f => (f.name, f.write o))

/-- Options written as a list, in order; those at the end may be missing. -/
def itemsReader : Reader Options := go {} true fields
where
  go (o : Options) (first : Bool) : List Field → Reader Options
    | [] => return o
    | f :: rest => do
      if ← Reader.nextItem first then
        let set ← f.read
        go (set o) false rest
      else go o first rest

/-- Reads a member; the names of those read before come with the options. -/
def readMember (key : String) (state : Options × List String) : Reader (Options × List String) := do
  let (o, seen) := state
  match fields.find? (·.name == key) with
  | none =>
    Reader.colon
    Reader.skip
    return state
  | some f =>
    if seen.contains key then Reader.ofData (.error (.duplicateField key))
    Reader.colon
    let set ← f.read
    return (set o, key :: seen)

/-- Options written as an object. Unknown members are skipped. -/
def membersReader : Reader Options := do return (← Reader.foldMembers readMember ({}, [])).1

def reader (depth : Nat) : Reader Options :=
  Reader.structured "struct Options" depth (fun _ => itemsReader) fun _ => membersReader

/-- The options of a text. -/
def ofBytes (bytes : List UInt8) : Except Json.Error Options := (reader Reader.maxDepth).run bytes

end Options

end TaintReplay
