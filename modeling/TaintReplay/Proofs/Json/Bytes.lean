import TaintReplay.Json.Quotation

/-!
# The bytes of a text

A text is written by the bytes of its characters, one character after the other (`bytesOf_eq_flatMap`). A character
below 0x80 is one byte, and all bytes of the others are above (`utf8EncodeChar_cases`). What is read from the bytes of
a text is the text (`decode?_bytesOf`).
-/

namespace TaintReplay.Json

/-- The bytes of a text. -/
def bytesOf (s : String) : List UInt8 := s.toUTF8.toList

theorem byteArray_loop_eq (bytes : ByteArray) : ∀ (n i : Nat) (front : List UInt8), bytes.size = i + n →
    ByteArray.toList.loop bytes i front = front.reverse ++ bytes.data.toList.drop i := by
  intro n
  induction n with
  | zero =>
    intro i front h
    have hlength : bytes.data.toList.length = i := h
    rw [ByteArray.toList.loop, if_neg (by omega), List.drop_eq_nil_of_le (by omega), List.append_nil]
  | succ n ih =>
    intro i front h
    have hlength : i < bytes.data.toList.length := by
      show i < bytes.size
      omega
    have hget : bytes.get! i = bytes.data.toList[i] := by
      have hsize : i < bytes.data.size := hlength
      show bytes.data[i]! = _
      rw [getElem!_pos bytes.data i hsize, Array.getElem_toList]
    rw [ByteArray.toList.loop, if_pos (by omega), ih _ _ (by omega), List.drop_eq_getElem_cons hlength, hget,
      List.reverse_cons, List.append_assoc, List.singleton_append]

theorem byteArray_toList_eq (bytes : ByteArray) : bytes.toList = bytes.data.toList :=
  byteArray_loop_eq bytes bytes.size 0 [] (Nat.zero_add _).symm

theorem bytesOf_eq_flatMap (s : String) : bytesOf s = s.toList.flatMap String.utf8EncodeChar := by
  rw [bytesOf, byteArray_toList_eq, String.toUTF8_eq_toByteArray, ← String.utf8Encode_toList, List.utf8Encode,
    List.toList_data_toByteArray]

theorem bytesOf_ofList (cs : List Char) : bytesOf (String.ofList cs) = cs.flatMap String.utf8EncodeChar := by
  rw [bytesOf_eq_flatMap, String.toList_ofList]

theorem bytesOf_cons (c : Char) (cs : List Char) :
    bytesOf (String.ofList (c :: cs)) = String.utf8EncodeChar c ++ bytesOf (String.ofList cs) := by
  rw [bytesOf_ofList, bytesOf_ofList, List.flatMap_cons]

theorem bytesOf_append (s t : String) : bytesOf (s ++ t) = bytesOf s ++ bytesOf t := by
  rw [bytesOf_eq_flatMap, bytesOf_eq_flatMap, bytesOf_eq_flatMap, String.toList_append, List.flatMap_append]

theorem decode?_bytesOf (s : String) : Quotation.decode? (bytesOf s) = some s := by
  have hbytes : (⟨(bytesOf s).toArray⟩ : ByteArray) = s.toUTF8 := by
    rw [bytesOf, byteArray_toList_eq, Array.toArray_toList]
  rw [Quotation.decode?, hbytes]
  exact dif_pos s.isValidUTF8

/-- The number of a character gives its bytes. -/
theorem encode_toNat (c : Char) : Quotation.encode c.toNat = String.utf8EncodeChar c := by
  show bytesOf (String.singleton (Char.ofNat c.toNat)) = _
  rw [bytesOf_eq_flatMap, Char.ofNat_toNat, String.toList_singleton, List.flatMap_singleton]

/-- A character is one byte below 0x80, or all its bytes are above. -/
theorem utf8EncodeChar_cases (c : Char) :
    (c.toNat < 0x80 ∧ String.utf8EncodeChar c = [UInt8.ofNat c.toNat]) ∨
      (0x80 ≤ c.toNat ∧ ∀ b ∈ String.utf8EncodeChar c, 0x80 ≤ b.toNat) := by
  have hvalue : c.val.toNat = c.toNat := rfl
  unfold String.utf8EncodeChar
  dsimp only
  rw [hvalue]
  split
  · left
    exact ⟨by omega, rfl⟩
  · right
    refine ⟨by omega, ?_⟩
    split
    · simp only [List.mem_cons, List.not_mem_nil, or_false]
      rintro b (rfl | rfl) <;> rw [UInt8.toNat_ofNat'] <;> omega
    · split
      · simp only [List.mem_cons, List.not_mem_nil, or_false]
        rintro b (rfl | rfl | rfl) <;> rw [UInt8.toNat_ofNat'] <;> omega
      · simp only [List.mem_cons, List.not_mem_nil, or_false]
        rintro b (rfl | rfl | rfl | rfl) <;> rw [UInt8.toNat_ofNat'] <;> omega

/-- The bytes of characters below 0x80. -/
theorem bytesOf_ofList_ascii {cs : List Char} (h : ∀ c ∈ cs, c.toNat < 0x80) :
    bytesOf (String.ofList cs) = cs.map fun c => UInt8.ofNat c.toNat := by
  rw [bytesOf_ofList]
  induction cs with
  | nil => rfl
  | cons c cs ih =>
    rw [List.flatMap_cons, List.map_cons, ih fun d hd => h d (List.mem_cons_of_mem _ hd)]
    rcases utf8EncodeChar_cases c with ⟨-, hc⟩ | ⟨hc, -⟩
    · rw [hc, List.singleton_append]
    · exact absurd (h c List.mem_cons_self) (by omega)

end TaintReplay.Json
