import TaintReplay.Json.Numeral
import TaintReplay.Json.Quotation

/-!
# Tokens

`tokens` splits the bytes of a JSON text into tokens: the six marks, and scalars, which are words, numbers and quoted
texts. Blanks between tokens are dropped, so that what is read from the tokens does not depend on the layout. Each token
knows its place in the text. A scalar carries both what reading it gives and what skipping it gives, since fewer faults
are noticed in a scalar that is skipped. The tokens end at the first byte that begins none, and at the first scalar that
cannot even be skipped.
-/

namespace TaintReplay.Json

inductive Mark where
  | openList
  | closeList
  | openObject
  | closeObject
  | comma
  | colon
  deriving DecidableEq, Repr

def Mark.ofByte? (b : UInt8) : Option Mark :=
  match b with
  | 0x5b => some openList
  | 0x5d => some closeList
  | 0x7b => some openObject
  | 0x7d => some closeObject
  | 0x2c => some comma
  | 0x3a => some colon
  | _ => none

structure Scalar where
  /-- Is it a quoted text? -/
  isText : Bool
  /-- What reading it gives. -/
  value : Except Problem Value
  /-- The offset behind it, if it can be skipped. -/
  stop : Except Problem Nat

inductive Shape where
  | mark (m : Mark)
  | scalar (s : Scalar)
  /-- A byte that begins no token. -/
  | stray

structure Token where
  shape : Shape
  /-- The offset of its first byte. -/
  start : Nat
  /-- The offset behind it. -/
  stop : Nat

def isBlank (b : UInt8) : Bool := b == 0x20 || b == 0x0a || b == 0x09 || b == 0x0d

/-! ## Scalars -/

/-- Reads the rest of a word. -/
def readWord (expected : List UInt8) (offset : Nat) (bytes : List UInt8) : Except Problem Nat :=
  match expected, bytes with
  | [], _ => .ok offset
  | _ :: _, [] => .error (TextFault.endInValue.at offset)
  | e :: expected, b :: bytes =>
    if b = e then readWord expected (offset + 1) bytes else .error (TextFault.noWord.at (offset + 1))

/-- The words by their first byte. -/
def word? (b : UInt8) : Option (List UInt8 × Value) :=
  match b with
  | 0x6e => some ("ull".toUTF8.toList, .null)
  | 0x74 => some ("rue".toUTF8.toList, .bool true)
  | 0x66 => some ("alse".toUTF8.toList, .bool false)
  | _ => none

def wordScalar (expected : List UInt8) (value : Value) (offset : Nat) (bytes : List UInt8) : Scalar :=
  let stop := readWord expected offset bytes
  { isText := false, value := stop.map fun _ => value, stop }

/-- A number at an offset. A number that breaks off at the end of the text is a missing value for its reader, and a bad
number for one who skips it. -/
def numberScalar (offset : Nat) (bytes : List UInt8) : Scalar :=
  match Numeral.scan bytes with
  | .error b =>
    let place := if b.atEnd then offset + b.count else offset + b.count + 1
    { isText := false
      value := .error ((if b.atEnd then TextFault.endInValue else TextFault.badNumber).at place)
      stop := .error (TextFault.badNumber.at place) }
  | .ok (n, count) =>
    let value := match n.value with
      | .ok x => .ok (.number x)
      | .error .atEnd => .error (TextFault.numberTooLarge.at (offset + count))
      | .error (.inExponent digits) =>
        let unread := ((n.exponent.map (·.2)).getD []).length - digits
        .error (TextFault.numberTooLarge.at (offset + count - unread))
    { isText := false, value, stop := .ok (offset + count) }

/-- A quoted text whose opening quote is in front of the offset. -/
def textScalar (offset : Nat) (bytes : List UInt8) : Scalar where
  isText := true
  value := (Quotation.read offset [] bytes).map .text
  stop := Quotation.skip offset bytes

/-! ## Tokens -/

/-- The shape of the token that begins with a byte at an offset. -/
def shapeAt (offset : Nat) (b : UInt8) (rest : List UInt8) : Shape :=
  match Mark.ofByte? b with
  | some m => .mark m
  | none =>
    match word? b with
    | some (expected, value) => .scalar (wordScalar expected value (offset + 1) rest)
    | none =>
      if b = Quotation.quote then .scalar (textScalar (offset + 1) rest)
      else if b = 0x2d || isDigit b then .scalar (numberScalar offset (b :: rest))
      else .stray

/-- How many bytes a token takes behind its first one, if it ends at all. -/
def Shape.extent? (offset : Nat) : Shape → Option Nat
  | mark _ => some 0
  | scalar s => match s.stop with
    | .ok stop => some (stop - offset - 1)
    | .error _ => none
  | stray => none

/-- The tokens of some bytes that stand at an offset. -/
def tokensFrom (offset : Nat) (bytes : List UInt8) : List Token :=
  match bytes with
  | [] => []
  | b :: rest =>
    if isBlank b then tokensFrom (offset + 1) rest
    else
      let shape := shapeAt offset b rest
      match shape.extent? offset with
      | none => [⟨shape, offset, offset⟩]
      | some extent => ⟨shape, offset, offset + 1 + extent⟩ :: tokensFrom (offset + 1 + extent) (rest.drop extent)
termination_by bytes.length
decreasing_by
  · simp
  · simp only [List.length_drop, List.length_cons]
    omega

/-- The tokens of a text. -/
def tokens (bytes : List UInt8) : List Token := tokensFrom 0 bytes

end TaintReplay.Json
