import Mathlib.Data.List.Pairwise
import Mathlib.Order.Bounds.Basic
import TaintReplay.Debugger.Recorder
import TaintReplay.Proofs.Image.Access
import TaintReplay.Proofs.X86.Operands
import TaintReplay.X86.Locality

/-!
# Where reading stops

A read ends where the segment that it began in ends (`length_read_of_segmentAt`), whatever is mapped behind it. So it
copies a whole run of mapped bytes, as they are read one by one (`Image.CopiesRun`), iff the run ends with the segment
and no earlier segment shows other bytes in the range (`copiesRun_iff`). This is the case in every image whose segments
neither touch nor overlap (`copiesRun_of_pairwise`). An instruction is found iff its bytes lie in one segment
(`read_within_segment`).
-/

namespace TaintReplay

namespace Segment

/-- How many bytes the segment has from an address on. -/
def rest (s : Segment) (address : UInt64) : Nat := s.data.size - s.offset address

variable {s : Segment} {address : UInt64} (h : s.contains address = true)
include h

theorem toNat_stop_of_contains : s.stop.toNat = address.toNat + s.rest address := by
  have hrange := (s.contains_iff address).1 h
  rw [toNat_stop, rest, offset_eq h]
  omega

theorem toNat_add_ofNat {i : Nat} (hi : i ≤ s.rest address) : (address + UInt64.ofNat i).toNat = address.toNat + i := by
  have hstop := toNat_stop_of_contains h
  have hlt := s.stop.toNat_lt
  rw [UInt64.toNat_add, UInt64.toNat_ofNat']
  omega

theorem add_rest : address + UInt64.ofNat (s.rest address) = s.stop := by
  apply UInt64.toNat_inj.1
  rw [toNat_add_ofNat h (Nat.le_refl _), toNat_stop_of_contains h]

theorem contains_add {i : Nat} (hi : i < s.rest address) : s.contains (address + UInt64.ofNat i) = true := by
  have hrange := (s.contains_iff address).1 h
  have hstop := toNat_stop_of_contains h
  rw [toNat_stop] at hstop
  rw [contains_iff, toNat_add_ofNat h (Nat.le_of_lt hi)]
  omega

end Segment

namespace Image

/-- There is a byte at the address. -/
def IsMapped (image : Image) (address : UInt64) : Prop := ∃ s ∈ image.segments, s.contains address = true

/-- The byte that is read at an address alone. -/
def byte? (image : Image) (address : UInt64) : Option UInt8 := (image.read address 1).head?

/-- A read copies all that is mapped without a gap: as many bytes as there are, and each as it is read alone. -/
def CopiesRun (image : Image) (address : UInt64) (count : Nat) : Prop :=
  IsGreatest {k | k ≤ count ∧ ∀ i < k, image.IsMapped (address + UInt64.ofNat i)} (image.read address count).length ∧
    ∀ i < (image.read address count).length,
      (image.read address count)[i]? = image.byte? (address + UInt64.ofNat i)

variable {image : Image} {address : UInt64} {s : Segment}

theorem isMapped_iff : image.IsMapped address ↔ (image.segmentAt address).isSome = true := by
  simp [IsMapped, segmentAt]

theorem byte?_of_segmentAt (h : image.segmentAt address = some s) :
    image.byte? address = s.data[s.offset address]? := by
  have hread := s.getElem?_read address 1 0
  rw [if_pos Nat.zero_lt_one, Nat.add_zero] at hread
  rw [byte?, read_of_segmentAt h, List.head?_eq_getElem?, hread]

theorem length_read_of_segmentAt (h : image.segmentAt address = some s) (count : Nat) :
    (image.read address count).length = min count (s.rest address) := by
  rw [read_of_segmentAt h, Segment.length_read]
  rfl

theorem getElem?_read_of_segmentAt (h : image.segmentAt address = some s) {count i : Nat}
    (hi : i < min count (s.rest address)) : (image.read address count)[i]? = s.data[s.offset address + i]? := by
  rw [read_of_segmentAt h, Segment.getElem?_read, if_pos (by omega)]

theorem isMapped_add (h : image.segmentAt address = some s) {i : Nat} (hi : i < s.rest address) :
    image.IsMapped (address + UInt64.ofNat i) := by
  unfold segmentAt at h
  exact ⟨s, List.mem_of_find?_eq_some h, Segment.contains_add (contains_of_segmentAt h) hi⟩

/-! ## Runs of mapped bytes -/

theorem read_of_not_isMapped (h : ¬image.IsMapped address) (count : Nat) : image.read address count = [] := by
  rw [isMapped_iff, Bool.not_eq_true, Option.isSome_eq_false_iff, Option.isNone_iff_eq_none] at h
  exact read_of_segmentAt_eq_none h count

theorem copiesRun_of_not_isMapped (h : ¬image.IsMapped address) (count : Nat) : image.CopiesRun address count := by
  rw [CopiesRun, read_of_not_isMapped h count]
  refine ⟨⟨⟨Nat.zero_le _, fun i hi => absurd hi (Nat.not_lt_zero i)⟩, ?_⟩, fun i hi => absurd hi (Nat.not_lt_zero i)⟩
  rintro k ⟨-, hk⟩
  by_contra hlong
  have hfirst := hk 0 (Nat.lt_of_not_le hlong)
  have hsame : address + UInt64.ofNat 0 = address := by simp
  exact h (hsame ▸ hfirst)

/-- The longest run of mapped bytes is what is left of the segment, iff nothing is mapped where the segment ends. -/
theorem isGreatest_iff (h : image.segmentAt address = some s) (count : Nat) :
    IsGreatest {k | k ≤ count ∧ ∀ i < k, image.IsMapped (address + UInt64.ofNat i)} (min count (s.rest address)) ↔
      count ≤ s.rest address ∨ ¬image.IsMapped s.stop := by
  have hstop := Segment.add_rest (contains_of_segmentAt h)
  have hmapped : ∀ i < s.rest address, image.IsMapped (address + UInt64.ofNat i) := fun i hi => isMapped_add h hi
  constructor
  · intro hgreatest
    by_contra hmore
    obtain ⟨hcount, hnext⟩ := not_or.1 hmore
    rw [not_not, ← hstop] at hnext
    have hlonger : s.rest address + 1 ≤ min count (s.rest address) := by
      refine hgreatest.2 ⟨by omega, fun i hi => ?_⟩
      rcases Nat.lt_succ_iff_lt_or_eq.1 hi with hi | rfl
      · exact hmapped i hi
      · exact hnext
    omega
  · intro hends
    refine ⟨⟨Nat.min_le_left _ _, fun i hi => hmapped i (by omega)⟩, ?_⟩
    rintro k ⟨hk, hrun⟩
    rcases hends with hcount | hends
    · omega
    · by_contra hlong
      have hbeyond := hrun (s.rest address) (by omega)
      rw [hstop] at hbeyond
      exact hends hbeyond

theorem copiesRun_iff (h : image.segmentAt address = some s) (count : Nat) : image.CopiesRun address count ↔
    (count ≤ s.rest address ∨ ¬image.IsMapped s.stop) ∧ ∀ i < min count (s.rest address),
      image.byte? (address + UInt64.ofNat i) = s.data[s.offset address + i]? := by
  rw [CopiesRun, length_read_of_segmentAt h, isGreatest_iff h]
  refine and_congr_right fun _ => forall₂_congr fun i hi => ?_
  rw [getElem?_read_of_segmentAt h hi]
  exact eq_comm

/-! ## Segments that do not touch -/

/-- There are addresses between the segments that belong to neither. -/
def Apart (s t : Segment) : Prop := s.stop < t.start ∨ t.stop < s.start

instance : Std.Symm Apart := ⟨fun _ _ h => h.symm⟩

theorem eq_of_contains (h : image.segments.Pairwise Apart) {s t : Segment} (hs : s ∈ image.segments)
    (ht : t ∈ image.segments) (hsa : s.contains address = true) (hta : t.contains address = true) : s = t := by
  by_contra hne
  have hs' := (s.contains_iff address).1 hsa
  have ht' := (t.contains_iff address).1 hta
  rcases h.forall hs ht hne with hst | hst
  all_goals
    rw [UInt64.lt_iff_toNat_lt, Segment.toNat_stop] at hst
    omega

/-- Nothing is mapped where a segment ends, if no other begins there. -/
theorem not_isMapped_stop (h : image.segments.Pairwise Apart) {s : Segment} (hs : s ∈ image.segments) :
    ¬image.IsMapped s.stop := by
  rintro ⟨t, ht, hta⟩
  have ht' := (t.contains_iff s.stop).1 hta
  have hstop := s.toNat_stop
  have hne : s ≠ t := by
    rintro rfl
    omega
  rcases h.forall hs ht hne with hst | hst
  · rw [UInt64.lt_iff_toNat_lt] at hst
    omega
  · rw [UInt64.lt_iff_toNat_lt, Segment.toNat_stop] at hst
    omega

/-- Where no two segments touch or overlap, every read copies a whole run. -/
theorem copiesRun_of_pairwise (h : image.segments.Pairwise Apart) (address : UInt64) (count : Nat) :
    image.CopiesRun address count := by
  cases hs : image.segmentAt address with
  | none =>
    refine copiesRun_of_not_isMapped ?_ count
    simp [isMapped_iff, hs]
  | some s =>
    have hmem : s ∈ image.segments := by
      unfold segmentAt at hs
      exact List.mem_of_find?_eq_some hs
    have hcontains := contains_of_segmentAt hs
    refine (copiesRun_iff hs count).2 ⟨.inr (not_isMapped_stop h hmem), fun i hi => ?_⟩
    have hrest : i < s.rest address := by omega
    obtain ⟨t, ht⟩ := Option.isSome_iff_exists.1 (isMapped_iff.1 (isMapped_add hs hrest))
    have hsame : t = s := by
      have htmem : t ∈ image.segments := by
        unfold segmentAt at ht
        exact List.mem_of_find?_eq_some ht
      exact eq_of_contains h htmem hmem (contains_of_segmentAt ht) (Segment.contains_add hcontains hrest)
    subst hsame
    have hoffset : t.offset (address + UInt64.ofNat i) = t.offset address + i := by
      have hrange := (t.contains_iff address).1 hcontains
      rw [Segment.offset_eq (contains_of_segmentAt ht), Segment.offset_eq hcontains,
        Segment.toNat_add_ofNat hcontains (Nat.le_of_lt hrest)]
      omega
    rw [byte?_of_segmentAt ht, hoffset]

end Image

/-! ## Instructions -/

section Instructions

variable {r : Recorder} {pc : UInt64} {s : Segment} (hs : r.image.segmentAt pc = some s) {bytes : List UInt8}
  {d : X86.Instruction} (hd : X86.decodeWhole bytes = some d)
  (hbytes : ∀ i < min bytes.length (s.rest pc), bytes[i]? = s.data[s.offset pc + i]?)
include hs hd hbytes

/-- What is read where an instruction begins is the instruction, as far as the segment reaches. -/
theorem Recorder.take_read_of_decodeWhole :
    (r.image.read pc maxInstructionLength).take bytes.length = bytes.take (s.rest pc) := by
  have hmax := X86.length_le_maxLength (X86.decode_of_decodeWhole hd).1
  rw [(X86.decode_of_decodeWhole hd).2] at hmax
  change bytes.length ≤ maxInstructionLength at hmax
  have hcount := Image.length_read_of_segmentAt hs maxInstructionLength
  apply List.ext_getElem?
  intro i
  rw [List.getElem?_take, List.getElem?_take]
  by_cases hi : i < min bytes.length (s.rest pc)
  · rw [if_pos (by omega), if_pos (by omega), hbytes i hi, Image.getElem?_read_of_segmentAt hs (by omega)]
  · have hleft : i < bytes.length → (r.image.read pc maxInstructionLength)[i]? = none := fun h =>
      List.getElem?_eq_none (by omega)
    have hright : i < s.rest pc → bytes[i]? = none := fun h => List.getElem?_eq_none (by omega)
    split
    · rename_i hlt
      rw [hleft hlt, if_neg (by omega)]
    · split
      · rename_i hlt
        rw [hright hlt]
      · rfl

/-- The bytes of an instruction are in the segment as far as it reaches. Its length is found iff it reaches far
enough. -/
theorem Recorder.instructionLength_of_decodeWhole :
    r.instructionLength pc = if bytes.length ≤ s.rest pc then some bytes.length else none := by
  obtain ⟨hdecode, hlength⟩ := X86.decode_of_decodeWhole hd
  have hfront := take_read_of_decodeWhole hs hd hbytes
  have hcount := Image.length_read_of_segmentAt hs maxInstructionLength
  unfold instructionLength
  generalize r.image.read pc maxInstructionLength = code at hfront hcount ⊢
  split
  · rename_i hwhole
    rw [List.take_of_length_le hwhole] at hfront
    have hcode : X86.decode code = some d := by
      calc X86.decode code = X86.decode (code.take bytes.length ++ code.drop bytes.length) := by
            rw [List.take_append_drop]
        _ = X86.decode (bytes.take d.length ++ code.drop bytes.length) := by
            rw [hfront, hlength, List.take_length]
        _ = some d := X86.decode_append hdecode _
    rw [hcode, Option.map_some, hlength]
  · rename_i hcut
    rw [List.take_of_length_le (by omega)] at hfront
    have hcode : X86.decode code = none := by
      rw [Option.eq_none_iff_forall_ne_some]
      intro e he
      have hwithin := X86.length_le_of_decode he
      -- A shorter instruction in front would be the one that the whole bytes begin with.
      have hshorter : X86.decode bytes = some e := by
        calc X86.decode bytes = X86.decode (bytes.take e.length ++ bytes.drop e.length) := by
              rw [List.take_append_drop]
          _ = X86.decode (code.take e.length ++ bytes.drop e.length) := by
              rw [hfront, List.take_take, Nat.min_eq_left (by omega)]
          _ = some e := X86.decode_append he _
      have hsame : d = e := Option.some.inj (hdecode.symm.trans hshorter)
      rw [← hsame] at hwithin
      omega
    rw [hcode, Option.map_none]

end Instructions

/-- Where no two segments touch or overlap, the length of every instruction in the image is found. -/
theorem Recorder.instructionLength_of_pairwise {r : Recorder} (h : r.image.segments.Pairwise Image.Apart) {pc : UInt64}
    {bytes : List UInt8} {d : X86.Instruction} (hd : X86.decodeWhole bytes = some d)
    (hbytes : ∀ i < bytes.length, r.image.byte? (pc + UInt64.ofNat i) = bytes[i]?) :
    r.instructionLength pc = some bytes.length := by
  have hmapped : ∀ i < bytes.length, r.image.IsMapped (pc + UInt64.ofNat i) := by
    intro i hi
    by_contra hfree
    have hbyte := hbytes i hi
    rw [Image.byte?, Image.read_of_not_isMapped hfree, List.head?_nil, List.getElem?_eq_getElem hi] at hbyte
    cases hbyte
  obtain ⟨hdecode, hlength⟩ := X86.decode_of_decodeWhole hd
  have hpos := X86.length_pos_of_decode hdecode
  have hfirst := hmapped 0 (by omega)
  rw [show pc + UInt64.ofNat 0 = pc by simp, Image.isMapped_iff] at hfirst
  obtain ⟨s, hs⟩ := Option.isSome_iff_exists.1 hfirst
  obtain ⟨⟨-, hlongest⟩, hsame⟩ := Image.copiesRun_of_pairwise h pc bytes.length
  have hwhole := hlongest ⟨Nat.le_refl _, hmapped⟩
  rw [Image.length_read_of_segmentAt hs] at hwhole hsame
  have hagrees : ∀ i < min bytes.length (s.rest pc), bytes[i]? = s.data[s.offset pc + i]? := by
    intro i hi
    rw [← hbytes i (by omega), ← hsame i hi, Image.getElem?_read_of_segmentAt hs hi]
  rw [instructionLength_of_decodeWhole hs hd hagrees, if_pos (by omega)]

/-! ## All reads -/

/-- Nothing is read at an address without a byte. At any other, a read ends with the segment `s` that begins it, so it
copies a whole run of mapped bytes iff it asks for no more than `s` has or nothing is mapped behind `s`, and no earlier
segment has other bytes in the range. An instruction that `s` shows has a length iff it ends in `s`. Where segments are
apart, every run is copied and every instruction has its length. -/
theorem Recorder.read_within_segment (r : Recorder) (address : UInt64) :
    (¬r.image.IsMapped address → ∀ count, r.image.read address count = [] ∧ r.image.CopiesRun address count) ∧
    (∀ s, r.image.segmentAt address = some s → s.stop.toNat = address.toNat + s.rest address ∧
      (∀ count, (r.image.read address count).length = min count (s.rest address) ∧
        (∀ i < min count (s.rest address), (r.image.read address count)[i]? = s.data[s.offset address + i]?) ∧
        (r.image.CopiesRun address count ↔ (count ≤ s.rest address ∨ ¬r.image.IsMapped s.stop) ∧
          ∀ i < min count (s.rest address),
            r.image.byte? (address + UInt64.ofNat i) = s.data[s.offset address + i]?)) ∧
      ∀ bytes d, X86.decodeWhole bytes = some d →
        (∀ i < min bytes.length (s.rest address), bytes[i]? = s.data[s.offset address + i]?) →
        r.instructionLength address = if bytes.length ≤ s.rest address then some bytes.length else none) ∧
    (r.image.segments.Pairwise Image.Apart → (∀ count, r.image.CopiesRun address count) ∧
      ∀ bytes d, X86.decodeWhole bytes = some d →
        (∀ i < bytes.length, r.image.byte? (address + UInt64.ofNat i) = bytes[i]?) →
        r.instructionLength address = some bytes.length) := by
  refine ⟨fun hfree count => ?_, fun s hs => ⟨?_, fun count => ?_, fun bytes d hd hbytes => ?_⟩, fun hapart => ?_⟩
  · exact ⟨Image.read_of_not_isMapped hfree count, Image.copiesRun_of_not_isMapped hfree count⟩
  · exact Segment.toNat_stop_of_contains (Image.contains_of_segmentAt hs)
  · exact ⟨Image.length_read_of_segmentAt hs count, fun i hi => Image.getElem?_read_of_segmentAt hs hi,
      Image.copiesRun_iff hs count⟩
  · exact instructionLength_of_decodeWhole hs hd hbytes
  · exact ⟨Image.copiesRun_of_pairwise hapart address, fun bytes d hd hbytes =>
      instructionLength_of_pairwise hapart hd hbytes⟩

/-- `mov rax, rdi` with its last byte in a second segment, right behind the first: all three bytes are mapped, but only
two are read, and no length is found. -/
theorem Recorder.exists_run_cut : ∃ r : Recorder, (∀ i < 3, r.image.IsMapped (0x1000 + UInt64.ofNat i)) ∧
    (∀ i < 3, r.image.byte? (0x1000 + UInt64.ofNat i) = ([0x48, 0x89, 0xf8] : List UInt8)[i]?) ∧
    r.image.read 0x1000 3 = [0x48, 0x89] ∧ ¬r.image.CopiesRun 0x1000 3 ∧
    (X86.decodeWhole [0x48, 0x89, 0xf8]).isSome = true ∧ r.instructionLength 0x1000 = none := by
  let front : Segment := ⟨0x1000, #[0x48, 0x89], by decide⟩
  let behind : Segment := ⟨0x1002, #[0xf8], by decide⟩
  let r : Recorder := { image := { segments := [front, behind] } }
  have hmapped : ∀ i < 3, r.image.IsMapped (0x1000 + UInt64.ofNat i) := by
    simp only [Image.isMapped_iff]
    decide +kernel
  have hread : r.image.read 0x1000 3 = [0x48, 0x89] := by decide +kernel
  refine ⟨r, hmapped, by decide +kernel, hread, fun hrun => ?_, by decide +kernel, by decide +kernel⟩
  have hlongest : 3 ≤ (r.image.read 0x1000 3).length := hrun.1.2 ⟨Nat.le_refl _, hmapped⟩
  rw [hread] at hlongest
  exact absurd hlongest (by decide)

end TaintReplay
