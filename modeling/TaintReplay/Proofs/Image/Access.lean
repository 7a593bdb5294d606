import TaintReplay.Image

/-!
# Reading and writing an image

An access to an image goes to the first segment that contains its address, and ends where this segment ends. Its place
is the distance from the start of the segment, which lies inside (`Segment.offset_lt`), and so does all that is read or
written from there on (`Segment.offset_add_room_le`).
-/

namespace TaintReplay

/-! ## Segments -/

namespace Segment

variable {s : Segment} {address : UInt64}

theorem start_le (h : s.contains address = true) : s.start ≤ address := by
  rw [UInt64.le_iff_toNat_le]
  exact ((s.contains_iff address).1 h).1

theorem offset_eq (h : s.contains address = true) : s.offset address = address.toNat - s.start.toNat :=
  UInt64.toNat_sub_of_le _ _ (start_le h)

theorem offset_lt (h : s.contains address = true) : s.offset address < s.data.size := by
  have hrange := (s.contains_iff address).1 h
  rw [offset_eq h]
  omega

variable (s)

theorem room_le (address : UInt64) (count : Nat) : s.room address count ≤ count := Nat.min_le_left _ _

theorem length_read (address : UInt64) (count : Nat) : (s.read address count).length = s.room address count := by
  simp only [read, room, Array.length_toList, Array.size_extract]
  omega

theorem length_read_le (address : UInt64) (count : Nat) : (s.read address count).length ≤ count := by
  rw [length_read]
  exact s.room_le address count

theorem getElem?_read (address : UInt64) (count i : Nat) :
    (s.read address count)[i]? = if i < count then s.data[s.offset address + i]? else none := by
  simp only [read, Array.getElem?_toList, Array.getElem?_extract]
  split
  · rw [if_pos (by omega)]
  · split
    · rw [Array.getElem?_eq_none (by omega)]
    · rfl

variable {s} in
theorem offset_add_room_le (h : s.contains address = true) (count : Nat) :
    s.offset address + s.room address count ≤ s.data.size := by
  have hlt := offset_lt h
  simp only [room]
  omega

/-- What is laid over the bytes stands in their place, and the others stay. -/
theorem getElem?_overlay {data : Array UInt8} {start : Nat} (h : start ≤ data.size) (bytes : List UInt8) (j : Nat) :
    (overlay data start bytes)[j]? =
      if start ≤ j ∧ j < start + min bytes.length (data.size - start) then bytes[j - start]? else data[j]? := by
  have hfront : (data.extract 0 start).size = start := by simp [h]
  have hfits : (bytes.take (data.size - start)).length = min bytes.length (data.size - start) := by
    simp [Nat.min_comm]
  simp only [overlay, Array.getElem?_append, Array.size_append, hfront, List.size_toArray, hfits]
  rcases Nat.lt_or_ge j start with hlow | hlow
  · rw [if_pos (by omega), if_pos hlow, if_neg (by omega), Array.getElem?_extract, if_pos (by omega), Nat.zero_add]
  · rcases Nat.lt_or_ge j (start + min bytes.length (data.size - start)) with hhigh | hhigh
    · rw [if_pos hhigh, if_neg (by omega), if_pos ⟨hlow, hhigh⟩, List.getElem?_toArray, List.getElem?_take,
        if_pos (by omega)]
    · rw [if_neg (by omega), if_neg (by omega), Array.getElem?_extract]
      split
      · congr 1
        omega
      · rw [Array.getElem?_eq_none (by omega)]

/-! ### After a write -/

variable (address : UInt64) (bytes : List UInt8)

@[simp] theorem start_write : (s.write address bytes).start = s.start := rfl

@[simp] theorem size_write : (s.write address bytes).data.size = s.data.size := size_overlay _ _ _

@[simp] theorem stop_write : (s.write address bytes).stop = s.stop := by simp [stop]

@[simp] theorem contains_write (other : UInt64) : (s.write address bytes).contains other = s.contains other := by
  unfold contains
  rw [start_write, stop_write]

@[simp] theorem offset_write (other : UInt64) : (s.write address bytes).offset other = s.offset other := rfl

@[simp] theorem room_write (other : UInt64) (count : Nat) :
    (s.write address bytes).room other count = s.room other count := by
  simp [room]

variable {s} in
/-- Inside its segment, a read gives what was written where it was written, and what was there before elsewhere. -/
theorem getElem?_read_write {a b : UInt64} (ha : s.contains a = true) (hb : s.contains b = true) (bytes : List UInt8)
    {count i : Nat} (hi : i < s.room b count) : ((s.write a bytes).read b count)[i]? =
      if a.toNat ≤ b.toNat + i ∧ b.toNat + i < a.toNat + s.room a bytes.length then bytes[b.toNat + i - a.toNat]?
      else (s.read b count)[i]? := by
  have hstart := (s.contains_iff a).1 ha
  have hstart' := (s.contains_iff b).1 hb
  have hcount : i < count := Nat.lt_of_lt_of_le hi (s.room_le b count)
  have hplace : b.toNat - s.start.toNat + i - (a.toNat - s.start.toNat) = b.toNat + i - a.toNat := by omega
  have hwrite : (s.write a bytes).data = overlay s.data (s.offset a) bytes := rfl
  rw [getElem?_read, getElem?_read, if_pos hcount, if_pos hcount, hwrite, offset_write,
    getElem?_overlay (Nat.le_of_lt (offset_lt ha)), offset_eq ha, offset_eq hb, hplace]
  unfold room
  have hrange : a.toNat - s.start.toNat ≤ b.toNat - s.start.toNat + i ∧
      b.toNat - s.start.toNat + i <
        a.toNat - s.start.toNat + min bytes.length (s.data.size - (a.toNat - s.start.toNat)) ↔
      a.toNat ≤ b.toNat + i ∧
        b.toNat + i < a.toNat + min bytes.length (s.data.size - (a.toNat - s.start.toNat)) := by
    omega
  rw [offset_eq ha]
  simp only [hrange]

end Segment

/-! ## Images -/

namespace Image

/-- The place of the first segment that contains an address. -/
def segmentIndex (image : Image) (address : UInt64) : Option Nat := image.segments.findIdx? (·.contains address)

variable {image : Image} {address : UInt64} {s : Segment}

theorem contains_of_segmentAt (h : image.segmentAt address = some s) : s.contains address = true := by
  unfold segmentAt at h
  have hfound := List.find?_some h
  exact hfound

theorem read_of_segmentAt (h : image.segmentAt address = some s) (count : Nat) :
    image.read address count = s.read address count := by
  simp [read, h]

theorem read_of_segmentAt_eq_none (h : image.segmentAt address = none) (count : Nat) :
    image.read address count = [] := by
  simp [read, h]

theorem length_read_le (image : Image) (address : UInt64) (count : Nat) :
    (image.read address count).length ≤ count := by
  unfold read
  split
  · exact Segment.length_read_le _ _ _
  · exact Nat.zero_le _

theorem count_write_of_segmentAt (h : image.segmentAt address = some s) (bytes : List UInt8) :
    (image.write address bytes).2 = s.room address bytes.length := by
  simp [write, h]

theorem count_write_of_segmentAt_eq_none (h : image.segmentAt address = none) (bytes : List UInt8) :
    (image.write address bytes).2 = 0 := by
  simp [write, h]

/-- Addresses with one first segment have the same one. -/
theorem segmentAt_congr {a b : UInt64} (h : image.segmentIndex a = image.segmentIndex b) :
    image.segmentAt a = image.segmentAt b := by
  unfold segmentIndex at h
  unfold segmentAt
  rw [List.find?_eq_bind_findIdx?_getElem?, List.find?_eq_bind_findIdx?_getElem?, h]

/-! ### After a write -/

/-- The first segment that contains an address is the one that did so before, written to or not. -/
theorem find?_writeFirst (a b : UInt64) (bytes : List UInt8) (segments : List Segment) :
    (writeFirst a bytes segments).find? (·.contains b) = (segments.find? (·.contains b)).map fun s =>
      if segments.findIdx? (·.contains a) = segments.findIdx? (·.contains b) then s.write a bytes else s := by
  induction segments with
  | nil => rfl
  | cons s segments ih =>
    by_cases ha : s.contains a = true
    · by_cases hb : s.contains b = true
      · simp [writeFirst, List.findIdx?_cons, ha, hb]
      · have hother (i : Option Nat) : some 0 ≠ i.map (· + 1) := by cases i <;> simp
        simp [writeFirst, List.findIdx?_cons, ha, hb, hother]
    · by_cases hb : s.contains b = true
      · have hother (i : Option Nat) : i.map (· + 1) ≠ some 0 := by cases i <;> simp
        simp [writeFirst, List.findIdx?_cons, ha, hb, hother]
      · have hinjective (i j : Option Nat) : i.map (· + 1) = j.map (· + 1) ↔ i = j := by
          cases i <;> cases j <;> simp
        simp [writeFirst, List.findIdx?_cons, ha, hb, hinjective, ih]

theorem segmentAt_write (image : Image) (a b : UInt64) (bytes : List UInt8) :
    (image.write a bytes).1.segmentAt b = (image.segmentAt b).map fun s =>
      if image.segmentIndex a = image.segmentIndex b then s.write a bytes else s :=
  find?_writeFirst a b bytes image.segments

/-- A write changes no count. -/
theorem length_read_write (image : Image) (a b : UInt64) (bytes : List UInt8) (count : Nat) :
    ((image.write a bytes).1.read b count).length = (image.read b count).length := by
  have hsegment := image.segmentAt_write a b bytes
  cases h : image.segmentAt b with
  | none =>
    rw [h] at hsegment
    rw [read_of_segmentAt_eq_none hsegment, read_of_segmentAt_eq_none h]
  | some s =>
    rw [h, Option.map_some] at hsegment
    rw [read_of_segmentAt hsegment, read_of_segmentAt h, Segment.length_read, Segment.length_read]
    split <;> simp

/-- A read gives what was written where it was written, and what was there before elsewhere. -/
theorem getElem?_read_write (image : Image) (a b : UInt64) (bytes : List UInt8) {count i : Nat}
    (hi : i < (image.read b count).length) : ((image.write a bytes).1.read b count)[i]? =
      if image.segmentIndex a = image.segmentIndex b ∧ a.toNat ≤ b.toNat + i ∧
          b.toNat + i < a.toNat + (image.write a bytes).2 then
        bytes[b.toNat + i - a.toNat]?
      else (image.read b count)[i]? := by
  have hsegment := image.segmentAt_write a b bytes
  cases h : image.segmentAt b with
  | none =>
    rw [read_of_segmentAt_eq_none h] at hi
    exact absurd hi (Nat.not_lt_zero i)
  | some s =>
    rw [h, Option.map_some] at hsegment
    rw [read_of_segmentAt h, Segment.length_read] at hi
    rw [read_of_segmentAt hsegment, read_of_segmentAt h]
    by_cases hsame : image.segmentIndex a = image.segmentIndex b
    · have ha : image.segmentAt a = some s := by rw [segmentAt_congr hsame, h]
      rw [if_pos hsame, count_write_of_segmentAt ha,
        Segment.getElem?_read_write (contains_of_segmentAt ha) (contains_of_segmentAt h) bytes hi]
      simp only [hsame, true_and]
    · simp [hsame]

end Image

end TaintReplay
