import TaintReplay.Proofs.Image.Access

/-!
# What is written is read again

An image is made by mapping bytes and writing to them (`ImageOp`). A mapping comes behind all others, so it hides no
byte that is there, and a write to an address that is mapped already may as well come later (`after_maps_write`). What a
write does to later reads is then what it does to the very next one: reading gives what was written in the place where
it was written, and else what reading without the write gives (`read_after_write`).
-/

namespace TaintReplay

/-- What is done to an image: bytes are mapped, or written. -/
inductive ImageOp where
  | map (start : UInt64) (data : Array UInt8)
  | write (address : UInt64) (bytes : List UInt8)

namespace Image

/-- The image after it. A mapping that is refused changes nothing. -/
def perform (image : Image) : ImageOp → Image
  | .map start data => (image.map start data).toOption.getD image
  | .write address bytes => (image.write address bytes).1

def after (image : Image) (ops : List ImageOp) : Image := ops.foldl perform image

/-- Several mappings, one behind the other. -/
def maps (later : List (UInt64 × Array UInt8)) : List ImageOp := later.map fun (start, data) => .map start data

variable (image : Image)

/-! ## Mappings -/

/-- A mapping adds its segment behind the others, or is refused and adds none. -/
theorem exists_perform_map_eq (start : UInt64) (data : Array UInt8) : ∃ more : List Segment, ∀ image : Image,
    image.perform (.map start data) = { image with segments := image.segments ++ more } := by
  by_cases h : start.toNat + data.size < UInt64.size
  · exact ⟨[⟨start, data, h⟩], fun image => by simp [perform, map, h, Except.toOption]⟩
  · exact ⟨[], fun image => by simp [perform, map, h, Except.toOption]⟩

theorem exists_after_maps_eq (later : List (UInt64 × Array UInt8)) : ∃ more : List Segment, ∀ image : Image,
    image.after (maps later) = { image with segments := image.segments ++ more } := by
  induction later with
  | nil => exact ⟨[], fun image => by simp [after, maps]⟩
  | cons mapping later ih =>
    obtain ⟨more, hmore⟩ := ih
    obtain ⟨first, hfirst⟩ := exists_perform_map_eq mapping.1 mapping.2
    refine ⟨first ++ more, fun image => ?_⟩
    show (image.perform (.map mapping.1 mapping.2)).after (maps later) = _
    rw [hfirst, hmore, List.append_assoc]

/-- What was found before is found behind more segments too. -/
theorem segmentAt_append {image : Image} {address : UInt64} {s : Segment} (h : image.segmentAt address = some s)
    (more : List Segment) : ({ image with segments := image.segments ++ more } : Image).segmentAt address = some s := by
  unfold segmentAt at h ⊢
  rw [List.find?_append, h, Option.some_or]

theorem writeFirst_append_of_mem {address : UInt64} {segments : List Segment}
    (h : segments.any (·.contains address) = true) (bytes : List UInt8) (more : List Segment) :
    writeFirst address bytes (segments ++ more) = writeFirst address bytes segments ++ more := by
  induction segments with
  | nil => simp at h
  | cons s segments ih =>
    by_cases hs : s.contains address = true
    · simp [writeFirst, hs]
    · have hrest : segments.any (·.contains address) = true := by simpa [hs] using h
      simp [writeFirst, hs, ih hrest]

theorem writeFirst_of_not_mem {address : UInt64} {segments : List Segment}
    (h : segments.any (·.contains address) = false) (bytes : List UInt8) :
    writeFirst address bytes segments = segments := by
  induction segments with
  | nil => rfl
  | cons s segments ih =>
    rw [List.any_cons, Bool.or_eq_false_iff] at h
    simp [writeFirst, h.1, ih h.2]

theorem any_contains_eq_isSome (address : UInt64) :
    image.segments.any (·.contains address) = (image.segmentAt address).isSome := by
  rw [segmentAt, Bool.eq_iff_iff, List.any_eq_true, List.find?_isSome]

/-- Mapping behind a write is writing behind the mapping, if something could be written at all. -/
theorem after_maps_write (later : List (UInt64 × Array UInt8)) (address : UInt64) (bytes : List UInt8) :
    (image.write address bytes).1.after (maps later) =
      if (image.segmentAt address).isSome then ((image.after (maps later)).write address bytes).1
      else image.after (maps later) := by
  obtain ⟨more, hmore⟩ := exists_after_maps_eq later
  rw [hmore, hmore, ← any_contains_eq_isSome]
  cases h : image.segments.any (·.contains address) with
  | true => simp [write, writeFirst_append_of_mem h]
  | false => simp [write, writeFirst_of_not_mem h]

/-! ## Reads behind a write -/

theorem count_write_le (address : UInt64) (bytes : List UInt8) : (image.write address bytes).2 ≤ bytes.length := by
  cases h : image.segmentAt address with
  | none => simp [count_write_of_segmentAt_eq_none h]
  | some s =>
    rw [count_write_of_segmentAt h]
    exact s.room_le address bytes.length

theorem count_write_after_maps {image : Image} {address : UInt64} (h : (image.segmentAt address).isSome = true)
    (later : List (UInt64 × Array UInt8)) (bytes : List UInt8) :
    ((image.after (maps later)).write address bytes).2 = (image.write address bytes).2 := by
  obtain ⟨s, hs⟩ := Option.isSome_iff_exists.1 h
  obtain ⟨more, hmore⟩ := exists_after_maps_eq later
  rw [hmore, count_write_of_segmentAt (segmentAt_append hs more), count_write_of_segmentAt hs]

theorem read_after_maps {image : Image} {address : UInt64} (h : (image.segmentAt address).isSome = true)
    (later : List (UInt64 × Array UInt8)) (count : Nat) :
    (image.after (maps later)).read address count = image.read address count := by
  obtain ⟨s, hs⟩ := Option.isSome_iff_exists.1 h
  obtain ⟨more, hmore⟩ := exists_after_maps_eq later
  rw [hmore, read_of_segmentAt (segmentAt_append hs more), read_of_segmentAt hs]

/-- Behind a write and more mappings, a read is as long as without the write, and gives what was written where it was
written. -/
theorem read_behind_write (a : UInt64) (bytes : List UInt8) (later : List (UInt64 × Array UInt8)) (b : UInt64)
    (count : Nat) :
    let n := (image.write a bytes).2
    let mapped := image.after (maps later)
    let before := mapped.read b count
    let now := ((image.write a bytes).1.after (maps later)).read b count
    now.length = before.length ∧ ∀ i < before.length, now[i]? =
      if mapped.segmentIndex a = mapped.segmentIndex b ∧ a.toNat ≤ b.toNat + i ∧ b.toNat + i < a.toNat + n then
        bytes[b.toNat + i - a.toNat]?
      else before[i]? := by
  intro n mapped before now
  have hwritten := image.after_maps_write later a bytes
  cases ha : (image.segmentAt a).isSome with
  | true =>
    have hn : (mapped.write a bytes).2 = n := count_write_after_maps ha later bytes
    have hnow : now = (mapped.write a bytes).1.read b count := by
      rw [ha, if_pos rfl] at hwritten
      exact congrArg (·.read b count) hwritten
    rw [hnow, ← hn]
    exact ⟨mapped.length_read_write a b bytes count, fun i hi => mapped.getElem?_read_write a b bytes hi⟩
  | false =>
    -- where nothing is mapped nothing is written, and no byte lies in the range
    have hn : n = 0 := count_write_of_segmentAt_eq_none (by simpa using ha) bytes
    have hnow : now = before := by
      rw [ha, if_neg Bool.false_ne_true] at hwritten
      exact congrArg (·.read b count) hwritten
    refine ⟨by rw [hnow], fun i hi => ?_⟩
    rw [hnow, if_neg]
    omega

/-- Reading and writing agree, and stay in bounds. In an image that was made by any mappings and writes, every segment
ends where its data end, without wrapping around, a mapping is added as it stands or is refused and changes nothing, and
every access lies inside the data of its segment. A buffer is filled from the front, and otherwise left alone. After a
write, and mappings behind it, a read is as long as without the write, and it gives the byte that was written wherever
one was, in the same segment, and elsewhere what it gives without the write. Without mappings, or where there was a
byte before, this is what was read before. -/
theorem read_after_write (ops : List ImageOp) :
    let image := ({} : Image).after ops
    (∀ s ∈ image.segments, s.stop.toNat = s.start.toNat + s.data.size ∧ s.start.toNat + s.data.size < UInt64.size) ∧
    (∀ start data, if start.toNat + data.size < UInt64.size then
        ∃ s : Segment, s.start = start ∧ s.data = data ∧
          image.perform (.map start data) = { image with segments := image.segments ++ [s] }
      else image.map start data = .error (.wraps start data.size) ∧ image.perform (.map start data) = image) ∧
    (∀ address s, image.segmentAt address = some s →
      s.start ≤ address ∧ s.offset address = address.toNat - s.start.toNat ∧
        (∀ count, s.offset address + (image.read address count).length ≤ s.data.size) ∧
        ∀ bytes, s.offset address + (image.write address bytes).2 ≤ s.data.size) ∧
    (∀ address buffer, let filled := image.readInto address buffer
      filled.2 ≤ buffer.length ∧ filled.1.take filled.2 = image.read address buffer.length ∧
        filled.1.drop filled.2 = buffer.drop filled.2) ∧
    ∀ a bytes, let n := (image.write a bytes).2
      n ≤ bytes.length ∧ ∀ later b count,
        let mapped := image.after (maps later)
        let before := mapped.read b count
        let now := ((image.write a bytes).1.after (maps later)).read b count
        (later = [] ∨ (image.segmentAt b).isSome = true → before = image.read b count) ∧
          now.length = before.length ∧ ∀ i < before.length, now[i]? =
            if mapped.segmentIndex a = mapped.segmentIndex b ∧ a.toNat ≤ b.toNat + i ∧ b.toNat + i < a.toNat + n then
              bytes[b.toNat + i - a.toNat]?
            else before[i]? := by
  intro image
  refine ⟨fun s _ => ⟨s.toNat_stop, s.inSpace⟩, fun start data => ?_, fun address s hs => ?_, fun address buffer => ?_,
    fun a bytes => ?_⟩
  · split
    · rename_i h
      exact ⟨⟨start, data, h⟩, rfl, rfl, by simp [perform, map, h, Except.toOption]⟩
    · rename_i h
      exact ⟨by simp [map, h], by simp [perform, map, h, Except.toOption]⟩
  · have hcontains := contains_of_segmentAt hs
    refine ⟨Segment.start_le hcontains, Segment.offset_eq hcontains, fun count => ?_, fun bytes => ?_⟩
    · rw [read_of_segmentAt hs, Segment.length_read]
      exact Segment.offset_add_room_le hcontains count
    · rw [count_write_of_segmentAt hs]
      exact Segment.offset_add_room_le hcontains bytes.length
  · intro filled
    refine ⟨image.length_read_le address buffer.length, ?_, ?_⟩
    · simp [filled, readInto]
    · simp [filled, readInto]
  · intro n
    refine ⟨image.count_write_le a bytes, fun later b count => ?_⟩
    refine ⟨fun hsame => ?_, image.read_behind_write a bytes later b count⟩
    rcases hsame with rfl | hb
    · rfl
    · exact read_after_maps hb later count

end Image

end TaintReplay
