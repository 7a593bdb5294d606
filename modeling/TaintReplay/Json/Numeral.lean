import TaintReplay.Json.Fault

/-!
# Reading numbers

`Numeral.scan` splits the bytes of a number into its parts and finds the place where they stop to be a number.
`Numeral.value` is the number they stand for. Digits are gathered into a significand of 64 bits as long as they fit, and
the power of ten is applied to it in one floating-point operation.
-/

namespace TaintReplay.Json

def isDigit (b : UInt8) : Bool := 0x30 ≤ b && b ≤ 0x39

/-- The digits at the front, and the rest. -/
def spanDigits (bytes : List UInt8) : List UInt8 × List UInt8 := (bytes.takeWhile isDigit, bytes.dropWhile isDigit)

/-- The parts of a number. -/
structure Numeral where
  negative : Bool
  whole : List UInt8
  /-- The digits behind the point, if there is a point. -/
  fraction : Option (List UInt8)
  /-- The sign and the digits of the exponent, if there is one. -/
  exponent : Option (Bool × List UInt8)

namespace Numeral

/-- What stands where a number breaks off: the number of bytes in front, and whether there is a byte at all. -/
structure Break where
  count : Nat
  atEnd : Bool

def breakAt (bytes rest : List UInt8) : Break := ⟨bytes.length - rest.length, rest.isEmpty⟩

/-- An exponent behind its letter. -/
def scanExponent (bytes rest : List UInt8) : Except Break ((Bool × List UInt8) × List UInt8) :=
  let (negative, rest) := match rest with
    | 0x2b :: rest => (false, rest)
    | 0x2d :: rest => (true, rest)
    | rest => (false, rest)
  match spanDigits rest with
  | ([], _) => .error (breakAt bytes rest)
  | (digits, rest) => .ok ((negative, digits), rest)

/-- An exponent, if there is one. -/
def scanTail (bytes : List UInt8) (n : Numeral) (rest : List UInt8) : Except Break (Numeral × Nat) :=
  match rest with
  | 0x65 :: rest | 0x45 :: rest => do
    let (exponent, rest) ← scanExponent bytes rest
    return ({ n with exponent := some exponent }, bytes.length - rest.length)
  | rest => return (n, bytes.length - rest.length)

/-- The number at the front of some bytes, and how many of them it takes. -/
def scan (bytes : List UInt8) : Except Break (Numeral × Nat) :=
  let (negative, front) := match bytes with
    | 0x2d :: rest => (true, rest)
    | _ => (false, bytes)
  match spanDigits front with
  | ([], _) => .error (breakAt bytes front)
  | (0x30 :: _ :: _, _) => .error (breakAt bytes front.tail)
  | (whole, 0x2e :: rest) =>
    match spanDigits rest with
    | ([], _) => .error (breakAt bytes rest)
    | (fraction, rest) => scanTail bytes ⟨negative, whole, some fraction, none⟩ rest
  | (whole, rest) => scanTail bytes ⟨negative, whole, none, none⟩ rest

/-! ## The value -/

def digit (b : UInt8) : Nat := b.toNat - 0x30

/-- Appends digits to a significand while it fits into 64 bits; the number of digits left over comes with it. -/
def gather (significand : Nat) : List UInt8 → Nat × Nat
  | [] => (significand, 0)
  | b :: rest =>
    let next := significand * 10 + digit b
    if next < UInt64.size then gather next rest else (significand, rest.length + 1)

/-- The largest power of ten among the floating-point numbers. -/
def largestPower : Nat := 308

/-- A power of ten up to the largest one. -/
def powerOfTen (n : Nat) : Float := Float.ofScientific 1 false n

/-- The number `significand * 10 ^ power`, or nothing if it is too large. -/
def scale (significand : Nat) (power : Int) : Option Float :=
  let x := (UInt64.ofNat significand).toFloat
  if significand = 0 then some x
  else if power > largestPower then none
  else if power ≥ 0 then
    let y := x * powerOfTen power.toNat
    if y.isInf then none else some y
  else if power ≥ -largestPower then some (x / powerOfTen power.natAbs)
  else if power ≥ -2 * largestPower then
    some (x / powerOfTen largestPower / powerOfTen (power + largestPower).natAbs)
  else some 0

/-- Exponents are numbers of 32 bits. -/
def largestExponent : Nat := UInt32.size / 2 - 1

/-- An exponent and the number of digits it has, or the number of digits after which it was too large. -/
def exponentOf (count value : Nat) : List UInt8 → Except Nat Nat
  | [] => .ok value
  | b :: rest =>
    let next := value * 10 + digit b
    if next ≤ largestExponent then exponentOf (count + 1) next rest else .error (count + 1)

/-- Why there is no value: the number of digits of the exponent that were read. -/
inductive TooLarge where
  | inExponent (digits : Nat)
  | atEnd

def signed (negative : Bool) (x : Float) : Float := if negative then -x else x

def value (n : Numeral) : Except TooLarge Number := do
  let (significand, left) := gather 0 n.whole
  if n.fraction.isNone && n.exponent.isNone && left = 0 then
    if !n.negative then return .integer significand
    if 1 ≤ significand ∧ significand ≤ UInt64.size / 2 then return .integer (-significand)
    return .fraction (-(UInt64.ofNat significand).toFloat)
  let digits := n.fraction.getD []
  let (significand, unused) := gather significand digits
  let power : Int := left - (digits.length - unused : Nat)
  match n.exponent with
  | none =>
    match scale significand power with
    | some x => return .fraction (signed n.negative x)
    | none => throw .atEnd
  | some (negative, digits) =>
    match exponentOf 0 0 digits with
    | .error count =>
      if significand ≠ 0 ∧ !negative then throw (.inExponent count) else return .fraction (signed n.negative 0)
    | .ok exponent =>
      match scale significand (if negative then power - exponent else power + exponent) with
      | some x => return .fraction (signed n.negative x)
      | none => throw .atEnd

end Numeral

end TaintReplay.Json
