/-!
# Hexadecimal text

Numbers and byte strings are shown in lower-case hexadecimal: `hex` without leading zeros, `hexPadded` with at least a
given number of digits, `address` with the mark `0x` in front. Byte strings come joined (`hexBytes`) or spaced
(`spacedBytes`).
-/

namespace TaintReplay.Text

/-- The hexadecimal digits of a number, without leading zeros. -/
def hex (n : Nat) : String := String.ofList (Nat.toDigits 16 n)

/-- The hexadecimal digits of a number, filled up with zeros to at least `width` digits. -/
def hexPadded (width n : Nat) : String :=
  let digits := Nat.toDigits 16 n
  String.ofList (List.replicate (width - digits.length) '0' ++ digits)

/-- A number as an address is written: `0x` and its digits. -/
def address (n : Nat) : String := "0x" ++ hex n

/-- A number with its sign in front of the mark `0x`. -/
def signedHex (n : Int) : String :=
  if n < 0 then "-" ++ address n.natAbs else address n.natAbs

/-- Two digits for every byte, joined. -/
def hexBytes (bytes : List UInt8) : String :=
  String.join (bytes.map fun b => hexPadded 2 b.toNat)

/-- Two digits for every byte, with blanks between the bytes. -/
def spacedBytes (bytes : List UInt8) : String :=
  String.intercalate " " (bytes.map fun b => hexPadded 2 b.toNat)

end TaintReplay.Text
