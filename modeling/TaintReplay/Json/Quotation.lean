import TaintReplay.Json.Fault

/-!
# Reading quoted texts

A quoted text can be skipped (`Quotation.skip`), which only finds its end, or read (`Quotation.read`), which also joins
surrogates and checks that the bytes are a text. Both begin behind the opening quote, at a given offset.
-/

namespace TaintReplay.Json.Quotation

/-- The value of a hexadecimal digit. -/
def hexDigit? (b : UInt8) : Option Nat :=
  if 0x30 ≤ b && b ≤ 0x39 then some (b.toNat - 0x30)
  else if 0x41 ≤ b && b ≤ 0x46 then some (b.toNat - 0x41 + 10)
  else if 0x61 ≤ b && b ≤ 0x66 then some (b.toNat - 0x61 + 10)
  else none

/-- Four hexadecimal digits at an offset, and the rest. -/
def hexEscape (offset : Nat) (bytes : List UInt8) : Except Problem (Nat × List UInt8) :=
  match bytes with
  | a :: b :: c :: d :: rest =>
    match hexDigit? a, hexDigit? b, hexDigit? c, hexDigit? d with
    | some a, some b, some c, some d => .ok (a * 4096 + b * 256 + c * 16 + d, rest)
    | _, _, _, _ => .error (TextFault.badEscape.at (offset + 4))
  | _ => .error (TextFault.endInText.at (offset + bytes.length))

theorem length_of_hexEscape {offset n : Nat} {bytes rest : List UInt8} (h : hexEscape offset bytes = .ok (n, rest)) :
    rest.length + 4 = bytes.length := by
  unfold hexEscape at h
  split at h
  · split at h
    · simp only [Except.ok.injEq, Prod.mk.injEq] at h
      simp [h.2]
    · simp at h
  · simp at h

/-- The byte that a letter behind a backslash stands for. -/
def letterEscape? (b : UInt8) : Option UInt8 :=
  match b with
  | 0x22 | 0x5c | 0x2f => some b
  | 0x62 => some 0x08
  | 0x66 => some 0x0c
  | 0x6e => some 0x0a
  | 0x72 => some 0x0d
  | 0x74 => some 0x09
  | _ => none

def quote : UInt8 := 0x22
def backslash : UInt8 := 0x5c
def letterU : UInt8 := 0x75

/-- The offset behind the closing quote. -/
def skip (offset : Nat) (bytes : List UInt8) : Except Problem Nat :=
  match bytes with
  | [] => .error (TextFault.endInText.at offset)
  | b :: rest =>
    if b = quote then .ok (offset + 1)
    else if b = backslash then
      match rest with
      | [] => .error (TextFault.endInText.at (offset + 1))
      | c :: rest =>
        if c = letterU then
          match h : hexEscape (offset + 2) rest with
          | .ok (_, rest') => skip (offset + 6) rest'
          | .error p => .error p
        else if (letterEscape? c).isSome then skip (offset + 2) rest
        else .error (TextFault.badEscape.at (offset + 2))
    else if b < 0x20 then .error (TextFault.controlCharacter.at offset)
    else skip (offset + 1) rest
termination_by bytes.length
decreasing_by
  · have := length_of_hexEscape h
    simp only [List.length_cons]
    omega
  · simp only [List.length_cons]
    omega
  · simp

/-- The bytes of a character. -/
def encode (n : Nat) : List UInt8 := (String.singleton (Char.ofNat n)).toUTF8.toList

/-- Joins the two halves of a character beyond the sixteen-bit ones. -/
def joinSurrogates (high low : Nat) : Nat := (high - 0xd800) * 0x400 + (low - 0xdc00) + 0x10000

/-- The second half of a character at an offset, behind its first half, and the rest. -/
def secondHalf (offset : Nat) (bytes : List UInt8) : Except Problem (Nat × List UInt8) :=
  match bytes with
  | [] => .error (TextFault.endInText.at offset)
  | b :: rest =>
    if b ≠ backslash then .error (TextFault.noSecondSurrogate.at (offset + 1))
    else match rest with
      | [] => .error (TextFault.endInText.at (offset + 1))
      | c :: rest =>
        if c ≠ letterU then .error (TextFault.noSecondSurrogate.at (offset + 2))
        else match hexEscape (offset + 2) rest with
          | .error p => .error p
          | .ok (low, rest) =>
            if 0xdc00 ≤ low ∧ low ≤ 0xdfff then .ok (low, rest) else .error (TextFault.loneSurrogate.at (offset + 6))

theorem length_of_secondHalf {offset n : Nat} {bytes rest : List UInt8}
    (h : secondHalf offset bytes = .ok (n, rest)) : rest.length + 6 = bytes.length := by
  unfold secondHalf at h
  split at h
  · simp at h
  · split at h
    · simp at h
    · split at h
      · simp at h
      · split at h
        · simp at h
        · split at h
          · simp at h
          · next he =>
            split at h
            · simp only [Except.ok.injEq, Prod.mk.injEq] at h
              have := length_of_hexEscape he
              simp [← h.2]
              omega
            · simp at h

/-- A character given by its number, behind the letter of its escape; its bytes, how many were read, and the rest. -/
def numberEscape (offset : Nat) (bytes : List UInt8) : Except Problem (List UInt8 × Nat × List UInt8) :=
  match hexEscape offset bytes with
  | .error p => .error p
  | .ok (n, rest) =>
    if 0xdc00 ≤ n ∧ n ≤ 0xdfff then .error (TextFault.loneSurrogate.at (offset + 4))
    else if 0xd800 ≤ n ∧ n ≤ 0xdbff then
      match secondHalf (offset + 4) rest with
      | .error p => .error p
      | .ok (low, rest) => .ok (encode (joinSurrogates n low), 10, rest)
    else .ok (encode n, 4, rest)

theorem length_of_numberEscape {offset n : Nat} {bytes out rest : List UInt8}
    (h : numberEscape offset bytes = .ok (out, n, rest)) : rest.length < bytes.length := by
  unfold numberEscape at h
  split at h
  · simp at h
  · next hx =>
    have := length_of_hexEscape hx
    split at h
    · simp at h
    · split at h
      · split at h
        · simp at h
        · next hs =>
          have := length_of_secondHalf hs
          simp only [Except.ok.injEq, Prod.mk.injEq] at h
          rw [← h.2.2]
          omega
      · simp only [Except.ok.injEq, Prod.mk.injEq] at h
        rw [← h.2.2]
        omega

/-- The text of some bytes. -/
def decode? (bytes : List UInt8) : Option String := String.fromUTF8? ⟨bytes.toArray⟩

/-- The text up to the closing quote, behind the bytes `front` in reverse order. -/
def read (offset : Nat) (front : List UInt8) (bytes : List UInt8) : Except Problem String :=
  match bytes with
  | [] => .error (TextFault.endInText.at offset)
  | b :: rest =>
    if b = quote then
      match decode? front.reverse with
      | some s => .ok s
      | none => .error (TextFault.notUnicode.at (offset + 1))
    else if b = backslash then
      match rest with
      | [] => .error (TextFault.endInText.at (offset + 1))
      | c :: rest =>
        if c = letterU then
          match _h : numberEscape (offset + 2) rest with
          | .ok (out, count, rest') => read (offset + 2 + count) (out.reverse ++ front) rest'
          | .error p => .error p
        else match letterEscape? c with
          | some out => read (offset + 2) (out :: front) rest
          | none => .error (TextFault.badEscape.at (offset + 2))
    else if b < 0x20 then .error (TextFault.controlCharacter.at (offset + 1))
    else read (offset + 1) (b :: front) rest
termination_by bytes.length
decreasing_by
  · have := length_of_numberEscape _h
    simp only [List.length_cons]
    omega
  · simp only [List.length_cons]
    omega
  · simp

end TaintReplay.Json.Quotation
