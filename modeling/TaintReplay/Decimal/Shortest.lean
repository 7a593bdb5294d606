/-!
# Shortest decimal digits

`shortest` finds the decimal number with the fewest digits that reads back as a given binary floating-point number. A
positive finite number is a product `m * 2 ^ q`; the numbers that are rounded to it form an interval around it. For one
digit, two digits and so on, the two neighbours of the number among the decimals of so many digits are tried, and the
first count with a neighbour in the interval wins.
-/

namespace TaintReplay

/-- The number `digits * 10 ^ power`. -/
structure Decimal where
  digits : Nat
  power : Int
  deriving DecidableEq, Repr

namespace Decimal

/-- A positive binary number `significand * 2 ^ power`, as far as rounding is concerned. -/
structure Binary where
  significand : Nat
  power : Int
  /-- Is the neighbour below only half as far as the one above? -/
  closeBelow : Bool
  deriving DecidableEq, Repr

/-- The fraction `n * 2 ^ p`, as numerator and denominator. -/
def fraction (n : Nat) (p : Int) : Nat × Nat := if p < 0 then (n, Nat.pow 2 p.natAbs) else (n * Nat.pow 2 p.natAbs, 1)

/-- Compares the fraction `x` with `d`. -/
def compareTo (d : Decimal) (x : Nat × Nat) : Ordering :=
  if d.power < 0 then compare (d.digits * x.2) (x.1 * Nat.pow 10 d.power.natAbs)
  else compare (d.digits * Nat.pow 10 d.power.natAbs * x.2) x.1

namespace Binary

/-- The number itself. -/
def value (b : Binary) : Nat × Nat := fraction b.significand b.power

/-- The ends of the interval of numbers that are rounded to `b`. -/
def lower (b : Binary) : Nat × Nat :=
  if b.closeBelow then fraction (4 * b.significand - 1) (b.power - 2)
  else fraction (2 * b.significand - 1) (b.power - 1)

def upper (b : Binary) : Nat × Nat := fraction (2 * b.significand + 1) (b.power - 1)

/-- Is the decimal rounded to `b`? The ends of the interval belong to it if the significand is even. -/
def reads (b : Binary) (d : Decimal) : Bool :=
  let even := b.significand % 2 == 0
  let above := match compareTo d b.lower with
    | .gt => true
    | .eq => even
    | .lt => false
  let below := match compareTo d b.upper with
    | .lt => true
    | .eq => even
    | .gt => false
  above && below

/-- The number of decimal digits in front of the point, if the number is at least one. -/
def wholeDigits (x : Nat × Nat) : Nat := (Nat.toDigits 10 (x.1 / x.2)).length

/-- The least power of ten, counted down from one, that the number reaches. -/
def belowOne (x : Nat × Nat) : Nat → Nat → Int
  | 0, k => -k
  | fuel + 1, k => if x.1 * Nat.pow 10 k ≥ x.2 then -k else belowOne x fuel (k + 1)

/-- The power of ten of the first digit. -/
def magnitude (b : Binary) : Int :=
  let x := b.value
  if x.1 ≥ x.2 then (wholeDigits x : Int) - 1 else belowOne x 400 1

/-- The decimal with so many digits that is next below the number. -/
def truncated (b : Binary) (count : Nat) : Decimal :=
  let power := b.magnitude - (count - 1)
  let x := b.value
  let digits := if power < 0 then x.1 * Nat.pow 10 power.natAbs / x.2 else x.1 / (x.2 * Nat.pow 10 power.natAbs)
  { digits, power }

/-- The nearer to the number of the decimal below it and the next one. -/
def nearer (b : Binary) (d : Decimal) : Decimal :=
  let next := { d with digits := d.digits + 1 }
  let half := Decimal.mk (10 * d.digits + 5) (d.power - 1)
  match compareTo half b.value with
  | .lt => next
  | .gt => d
  | .eq => if d.digits % 2 == 0 then d else next

/-- The decimal with so many digits that reads back, the nearer one if there are two. -/
def withDigits? (b : Binary) (count : Nat) : Option Decimal :=
  let d := b.truncated count
  let next := { d with digits := d.digits + 1 }
  match b.reads d, b.reads next with
  | true, true => some (b.nearer d)
  | true, false => some d
  | false, true => some next
  | false, false => none

/-- The decimal with the fewest digits that reads back. Seventeen digits always do. -/
def shortest (b : Binary) : Decimal :=
  ((List.range 17).findSome? fun i => b.withDigits? (i + 1)).getD (b.truncated 17)

end Binary

/-- The binary number of a bit pattern without its sign, unless it is zero, infinite or no number. -/
def Binary.ofBits? (bits : UInt64) : Option Binary :=
  let exponent : Nat := bits.toNat / Nat.pow 2 52 % Nat.pow 2 11
  let low : Nat := bits.toNat % Nat.pow 2 52
  if exponent = 2047 then none
  else if exponent = 0 then if low = 0 then none else some ⟨low, -1074, false⟩
  else some ⟨Nat.pow 2 52 + low, (exponent : Int) - 1075, low == 0 && decide (1 < exponent)⟩

/-- Without zeros at the end of the digits. -/
def stripped (d : Decimal) : Decimal :=
  let ds := Nat.toDigits 10 d.digits
  let zeros := (ds.reverse.takeWhile (· == '0')).length
  { digits := d.digits / Nat.pow 10 zeros, power := d.power + zeros }

end Decimal

end TaintReplay
