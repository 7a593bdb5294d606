import Mathlib.Data.Nat.Digits.Defs
import TaintReplay.FunctionName

/-!
# Which names are recognised

A name that `tagged` gives has a number of at least three digits, and `isTagged` looks for exactly three. So a name is
recognised after it was given iff its number is below a thousand and the function had a name before
(`isTagged_tagged_iff`). A function whose name is recognised keeps it, however often it turns out tainted, and any other
gets one more tag each time (`retag`).
-/

namespace TaintReplay.FunctionName

/-- A padded number has three digits and possibly some more, which it has iff it is not below a thousand. -/
theorem exists_paddedNumber (n : Nat) : ∃ a b c rest, (paddedNumber n).toList = a :: b :: c :: rest ∧
    (∀ d ∈ a :: b :: c :: rest, d.isDigit = true) ∧ (rest = [] ↔ n < 1000) := by
  have hlength : (Nat.toDigits 10 n).length ≤ 3 ↔ n < 1000 := Nat.length_toDigits_le_iff (by decide) (by decide)
  have hdigits : ∀ d ∈ (paddedNumber n).toList, d.isDigit = true := by
    intro d hd
    rw [paddedNumber, String.toList_ofList, List.mem_append] at hd
    rcases hd with hd | hd
    · rw [List.eq_of_mem_replicate hd]
      rfl
    · exact Nat.isDigit_of_mem_toDigits (by decide) (by decide) hd
  have hpadded : (paddedNumber n).toList.length = max 3 (Nat.toDigits 10 n).length := by
    simp only [paddedNumber, String.toList_ofList, List.length_append, List.length_replicate]
    omega
  match hl : (paddedNumber n).toList with
  | [] | [_] | [_, _] =>
    rw [hl] at hpadded
    simp only [List.length_cons, List.length_nil] at hpadded
    omega
  | a :: b :: c :: rest =>
    refine ⟨a, b, c, rest, rfl, hl ▸ hdigits, ?_⟩
    rw [hl] at hpadded
    simp only [List.length_cons] at hpadded
    rw [← hlength, ← List.length_eq_zero_iff]
    omega

/-- A name that was given is recognised iff its number has no more than three digits and the name before was not
empty. -/
theorem isTagged_tagged_iff (index : Nat) (name : String) :
    isTagged (tagged index name) = true ↔ index < 1000 ∧ name ≠ "" := by
  obtain ⟨a, b, c, rest, hpadded, hdigits, hrest⟩ := exists_paddedNumber index
  have htagged : (tagged index name).toList = 'T' :: a :: b :: c :: (rest ++ '_' :: name.toList) := by
    simp [tagged, hpadded]
  unfold isTagged
  rw [htagged, ← hrest, ne_eq, ← String.toList_eq_nil_iff]
  cases rest with
  | nil =>
    have ha := hdigits a (by simp)
    have hb := hdigits b (by simp)
    have hc := hdigits c (by simp)
    cases name.toList with
    | nil => simp
    | cons d name => simp [ha, hb, hc]
  | cons d rest =>
    -- where the underscore is looked for there is a fourth digit
    have hd : d ≠ '_' := by
      rintro rfl
      exact absurd (hdigits '_' (by simp)) (by decide)
    simp [hd]

/-- The new name of a function, given the one it has got so far, after it turns out tainted once more. -/
def retag (own : String) (entry : Option String) (index : Nat) : Option String :=
  let name := entry.getD own
  if isTagged name then entry else some (tagged index name)

/-- A name that is recognised is kept. -/
theorem foldl_retag_of_isTagged {name : String} (h : isTagged name = true) (own : String) (indices : List Nat) :
    indices.foldl (retag own) (some name) = some name := by
  induction indices with
  | nil => rfl
  | cons index indices ih =>
    have hkept : retag own (some name) index = some name := by simp [retag, h]
    rw [List.foldl_cons, hkept, ih]

/-- A function gets one tag if that makes its name recognised. -/
theorem foldl_retag_once {own : String} (h : isTagged own = false) (hown : own ≠ "") {index : Nat}
    (hindex : index < 1000) (indices : List Nat) :
    (index :: indices).foldl (retag own) none = some (tagged index own) := by
  have hfirst : retag own none index = some (tagged index own) := by simp [retag, h]
  have hrecognised := (isTagged_tagged_iff index own).2 ⟨hindex, hown⟩
  rw [List.foldl_cons, hfirst, foldl_retag_of_isTagged hrecognised]

end TaintReplay.FunctionName
