import TaintReplay.Decimal.Shortest

/-!
# JSON values

A `Value` is what a JSON text stands for. Members of an object keep their order. A number is an integer of 64 bits, with
or without a sign, or else a floating-point number.
-/

namespace TaintReplay.Json

inductive Number where
  | integer (n : Int)
  | fraction (x : Float)
  deriving Repr, Inhabited

inductive Value where
  | null
  | bool (b : Bool)
  | number (n : Number)
  | text (s : String)
  | array (items : List Value)
  | object (members : List (String × Value))
  deriving Repr, Inhabited

/-- A natural number as a value. -/
def Value.natural (n : Nat) : Value := .number (.integer n)

/-- A word of 64 bits as a value. -/
def Value.word (n : UInt64) : Value := .natural n.toNat

/-- A value that may be missing. -/
def Value.optional {α : Type} (f : α → Value) : Option α → Value
  | some x => f x
  | none => .null

/-- How floating-point numbers are written: powers of ten from `leastPower` to `greatestPower` of the first digit are
written with a point, others with an exponent. -/
structure FractionFormat where
  leastPower : Int
  greatestPower : Int
  exponentDigits : Nat

/-- Numbers from `1e-5` up to `1e16` are written with a point, and exponents have a sign and two digits. -/
def fractionFormat : FractionFormat := ⟨-5, 15, 2⟩

namespace Number

/-- The digits of a natural number, filled up with zeros to a width. -/
def padded (width n : Nat) : String :=
  let digits := Nat.toDigits 10 n
  String.ofList (List.replicate (width - digits.length) '0' ++ digits)

/-- A decimal in a format. -/
def decimalText (f : FractionFormat) (d : Decimal) : String :=
  let digits := Nat.toDigits 10 d.digits
  let first := d.power + digits.length - 1
  if f.leastPower ≤ first ∧ first ≤ f.greatestPower then
    if d.power ≥ 0 then String.ofList (digits ++ List.replicate d.power.toNat '0') ++ ".0"
    else if first ≥ 0 then
      let (whole, rest) := digits.splitAt (first.toNat + 1)
      String.ofList (whole ++ '.' :: rest)
    else String.ofList ('0' :: '.' :: (List.replicate (-first - 1).toNat '0' ++ digits))
  else
    let mantissa := match digits with
      | [d] => [d]
      | d :: rest => d :: '.' :: rest
      | [] => []
    let sign := if first < 0 then "-" else "+"
    String.ofList mantissa ++ "e" ++ sign ++ padded f.exponentDigits first.natAbs

/-- A floating-point number by the fewest digits that read back. -/
def fractionText (x : Float) : String :=
  let bits := x.toBits
  let sign := if bits.toNat < UInt64.size / 2 then "" else "-"
  sign ++ match Decimal.Binary.ofBits? bits with
    | some b => decimalText fractionFormat b.shortest.stripped
    | none => "0.0"

def text : Number → String
  | integer n => toString n
  | fraction x => fractionText x

end Number

end TaintReplay.Json
