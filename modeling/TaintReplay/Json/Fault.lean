import TaintReplay.Json.Value
import TaintReplay.Text.Quoted

/-!
# Faults in a JSON text

A `TextFault` is a place where a text is not JSON, a `DataFault` a value that is not what its reader expects. A
`Problem` is a fault with the offset at which it is reported; `Place.ofOffset` turns the offset into a line and a
column.
-/

namespace TaintReplay.Json

inductive TextFault where
  | endInValue
  | endInList
  | endInObject
  | endInText
  | noValue
  | noWord
  | noColon
  | noCommaInList
  | noCommaInObject
  | trailingComma
  | trailingCharacters
  | keyNotText
  | badNumber
  | numberTooLarge
  | badEscape
  | noSecondSurrogate
  | loneSurrogate
  | notUnicode
  | controlCharacter
  | tooDeep
  deriving DecidableEq, Repr

def TextFault.message : TextFault → String
  | endInValue => "EOF while parsing a value"
  | endInList => "EOF while parsing a list"
  | endInObject => "EOF while parsing an object"
  | endInText => "EOF while parsing a string"
  | noValue => "expected value"
  | noWord => "expected ident"
  | noColon => "expected `:`"
  | noCommaInList => "expected `,` or `]`"
  | noCommaInObject => "expected `,` or `\x7d`"
  | trailingComma => "trailing comma"
  | trailingCharacters => "trailing characters"
  | keyNotText => "key must be a string"
  | badNumber => "invalid number"
  | numberTooLarge => "number out of range"
  | badEscape => "invalid escape"
  | noSecondSurrogate => "unexpected end of hex escape"
  | loneSurrogate => "lone leading surrogate in hex escape"
  | notUnicode => "invalid unicode code point"
  | controlCharacter => "control character (\\u0000-\\u001F) found while parsing a string"
  | tooDeep => "recursion limit exceeded"

/-- A value as a message names it. -/
def Value.describe : Value → String
  | null => "null"
  | bool b => "boolean `" ++ (if b then "true" else "false") ++ "`"
  | number (.integer n) => "integer `" ++ toString n ++ "`"
  | number (.fraction x) => "floating point `" ++ Number.fractionText x ++ "`"
  | text s => "string " ++ Text.quoted s
  | array _ => "sequence"
  | object _ => "map"

inductive DataFault where
  | wrongType (found : Value) (expected : String)
  | wrongValue (found : Value) (expected : String)
  | missingField (name : String)
  | duplicateField (name : String)
  | unknownVariant (found : String) (known : List String)
  | wrongLength (found : Nat) (expected : String)

def DataFault.message : DataFault → String
  | wrongType found expected => "invalid type: " ++ found.describe ++ ", expected " ++ expected
  | wrongValue found expected => "invalid value: " ++ found.describe ++ ", expected " ++ expected
  | missingField name => "missing field `" ++ name ++ "`"
  | duplicateField name => "duplicate field `" ++ name ++ "`"
  | unknownVariant found known =>
    "unknown variant `" ++ found ++ "`, expected one of " ++ String.intercalate ", " (known.map ("`" ++ · ++ "`"))
  | wrongLength found expected => "invalid length " ++ toString found ++ ", expected " ++ expected

inductive Fault where
  | ofText (fault : TextFault)
  | ofData (fault : DataFault)

def Fault.message : Fault → String
  | ofText fault => fault.message
  | ofData fault => fault.message

/-- The three kinds of faults. -/
inductive Category where
  | endOfText
  | form
  | data
  deriving DecidableEq, Repr

def Category.name : Category → String
  | endOfText => "eof"
  | form => "syntax"
  | data => "data"

def Fault.category : Fault → Category
  | ofText .endInValue | ofText .endInList | ofText .endInObject | ofText .endInText => .endOfText
  | ofText _ => .form
  | ofData _ => .data

/-- A fault with the offset at which it is reported. While a value is still being read, its fault may have no offset
yet. -/
structure Problem where
  fault : Fault
  offset : Option Nat

/-- A problem of the text at an offset. -/
def TextFault.at (fault : TextFault) (offset : Nat) : Problem := ⟨.ofText fault, some offset⟩

/-- A line and a column, as people count them: lines from one, columns as the number of bytes in front. -/
structure Place where
  line : Nat
  column : Nat
  deriving DecidableEq, Repr

def Place.ofOffset (bytes : List UInt8) (offset : Nat) : Place :=
  (bytes.take offset).foldl (fun p b => if b == 10 then ⟨p.line + 1, 0⟩ else ⟨p.line, p.column + 1⟩) ⟨1, 0⟩

/-- A fault with its place in a file. -/
structure Error where
  fault : Fault
  place : Place

def Error.message (e : Error) : String :=
  e.fault.message ++ " at line " ++ toString e.place.line ++ " column " ++ toString e.place.column

end TaintReplay.Json
