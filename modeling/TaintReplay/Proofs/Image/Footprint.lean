import TaintReplay.Image.Elf

/-!
# Loading reads the file alone

Whatever a number, a name or a segment is read from has been found in the file before, so bytes behind the file are
never seen: every function of the loader gives the same for a file with more bytes behind it (`ElfFile.extend`). This
is shown once for a field of a record (`word_extend`, `fixed_extend`) and once for a table (`table_congr`); the header,
the tables and the whole file follow (`tables_extend`, `ofElf_append`).
-/

namespace TaintReplay

@[simp] theorem ElfClass.select_self {α : Type} (c : ElfClass) (a : α) : c.select a a = a := by cases c <;> rfl

/-- A field that ends in its record in both classes. -/
theorem ElfClass.select_add_le (c : ElfClass) {narrow wide short long small large : Nat}
    (hsmall : narrow + short ≤ small) (hlarge : wide + long ≤ large) :
    c.select narrow wide + c.select short long ≤ c.select small large := by
  cases c with
  | bits32 => exact hsmall
  | bits64 => exact hlarge

namespace ElfFile

theorem extract_append_of_le {bytes : Array UInt8} {stop : Nat} (h : stop ≤ bytes.size) (start : Nat)
    (behind : Array UInt8) : (bytes ++ behind).extract start stop = bytes.extract start stop := by
  rw [Array.extract_append, Nat.sub_eq_zero_of_le h, Array.extract_zero, Array.append_empty]

/-- The same file with more bytes behind it. -/
def extend (f : ElfFile) (behind : Array UInt8) : ElfFile := { f with bytes := f.bytes ++ behind }

/-- The bytes of the file are there. -/
def IsPresent (f : ElfFile) : Prop := f.size ≤ f.bytes.size

variable {f : ElfFile} (behind : Array UInt8)

@[simp] theorem holds_extend : (f.extend behind).holds = f.holds := rfl
@[simp] theorem programEntry_extend : (f.extend behind).programEntry = f.programEntry := rfl
@[simp] theorem sectionEntry_extend : (f.extend behind).sectionEntry = f.sectionEntry := rfl
@[simp] theorem symbolEntry_extend : (f.extend behind).symbolEntry = f.symbolEntry := rfl

theorem holds_iff {offset count : Nat} : f.holds offset count = true ↔ offset + count ≤ f.size := by
  simp [holds]

/-- Entries in a part of the file are read alike, if each entry in the file is. -/
theorem entries_congr {α : Type} {start size count : Nat} {entry other : Nat → α}
    (h : f.holds start (count * size) = true)
    (hentry : ∀ offset, f.holds offset size = true → other offset = entry offset) :
    entries start size count other = entries start size count entry := by
  unfold entries
  refine List.map_congr_left fun i hi => hentry _ ?_
  have hlast : (i + 1) * size ≤ count * size := Nat.mul_le_mul_right size (List.mem_range.1 hi)
  rw [Nat.succ_mul] at hlast
  rw [holds_iff] at h ⊢
  omega

theorem table_congr {α : Type} {size : Nat} {entry other : Nat → α}
    (hentry : ∀ offset, f.holds offset size = true → other offset = entry offset) (start count : Nat)
    (fault : ElfFault) :
    (f.extend behind).table start size count other fault = f.table start size count entry fault := by
  unfold table
  rw [holds_extend]
  split
  · rename_i h
    rw [entries_congr h hentry]
  · rfl

section Presence

variable (hf : f.IsPresent)
include hf

theorem extract_extend {start stop : Nat} (h : stop ≤ f.size) :
    (f.extend behind).bytes.extract start stop = f.bytes.extract start stop :=
  extract_append_of_le (Nat.le_trans h hf) start behind

theorem number_extend {offset width : Nat} (h : offset + width ≤ f.size) :
    (f.extend behind).number offset width = f.number offset width := by
  unfold number
  rw [extract_extend behind hf h]
  rfl

/-! ## Records -/

section Records

variable {start narrow wide small large : Nat} (h : f.holds start (f.layout.select small large) = true)
include h

/-- A field of the width of an address, in a record that the file holds. -/
theorem word_extend (hsmall : narrow + 4 ≤ small) (hlarge : wide + 8 ≤ large) :
    (f.extend behind).word start narrow wide = f.word start narrow wide := by
  have hfield := f.layout.select_add_le hsmall hlarge
  rw [holds_iff] at h
  have hlast : start + f.layout.select narrow wide + f.layout.select 4 8 ≤ f.size := by omega
  exact number_extend behind hf hlast

/-- A field of a fixed width, in a record that the file holds. -/
theorem fixed_extend (width : Nat) (hsmall : narrow + width ≤ small) (hlarge : wide + width ≤ large) :
    (f.extend behind).fixed width start narrow wide = f.fixed width start narrow wide := by
  have hfield := f.layout.select_add_le hsmall hlarge
  rw [ElfClass.select_self] at hfield
  rw [holds_iff] at h
  have hlast : start + f.layout.select narrow wide + width ≤ f.size := by omega
  exact number_extend behind hf hlast

/-- A field that has one place in both classes. -/
theorem number_add_extend (place : Nat) {width : Nat} (hsmall : place + width ≤ small)
    (hlarge : place + width ≤ large) :
    (f.extend behind).number (start + place) width = f.number (start + place) width := by
  have hfixed := fixed_extend behind hf h width hsmall hlarge
  unfold fixed at hfixed
  rwa [ElfClass.select_self, ElfClass.select_self] at hfixed

end Records

theorem programHeader_extend {start : Nat} (h : f.holds start f.programEntry = true) :
    (f.extend behind).programHeader start = f.programHeader start := by
  have htype : (f.extend behind).number start 4 = f.number start 4 :=
    number_add_extend behind hf h 0 (by decide) (by decide)
  unfold programHeader
  rw [htype, word_extend behind hf h (by decide) (by decide), word_extend behind hf h (by decide) (by decide),
    word_extend behind hf h (by decide) (by decide)]

theorem sectionHeader_extend {start : Nat} (h : f.holds start f.sectionEntry = true) :
    (f.extend behind).sectionHeader start = f.sectionHeader start := by
  unfold sectionHeader
  rw [number_add_extend behind hf h 4 (by decide) (by decide), word_extend behind hf h (by decide) (by decide),
    word_extend behind hf h (by decide) (by decide), fixed_extend behind hf h 4 (by decide) (by decide),
    fixed_extend behind hf h 4 (by decide) (by decide)]

theorem symbol_extend {start : Nat} (h : f.holds start f.symbolEntry = true) :
    (f.extend behind).symbol start = f.symbol start := by
  have hname : (f.extend behind).number start 4 = f.number start 4 :=
    number_add_extend behind hf h 0 (by decide) (by decide)
  unfold symbol
  rw [hname, fixed_extend behind hf h 1 (by decide) (by decide), word_extend behind hf h (by decide) (by decide),
    word_extend behind hf h (by decide) (by decide)]

/-! ## Tables -/

section Header

variable (hh : f.holds 0 f.headerSize = true)
include hh

theorem programStart_extend : (f.extend behind).programStart = f.programStart :=
  word_extend behind hf hh (by decide) (by decide)

theorem sectionStart_extend : (f.extend behind).sectionStart = f.sectionStart :=
  word_extend behind hf hh (by decide) (by decide)

theorem firstSection_extend : (f.extend behind).firstSection = f.firstSection := by
  unfold firstSection
  rw [sectionStart_extend behind hf hh, fixed_extend behind hf hh 2 (by decide) (by decide), holds_extend,
    sectionEntry_extend]
  by_cases h : f.holds f.sectionStart f.sectionEntry = true
  · rw [sectionHeader_extend behind hf h]
  · rw [if_neg h, if_neg h]

theorem programCount_extend : (f.extend behind).programCount = f.programCount := by
  unfold programCount
  rw [fixed_extend behind hf hh 2 (by decide) (by decide), firstSection_extend behind hf hh]

theorem sectionCount_extend : (f.extend behind).sectionCount = f.sectionCount := by
  unfold sectionCount
  rw [fixed_extend behind hf hh 2 (by decide) (by decide), firstSection_extend behind hf hh]

theorem sectionNames_extend : (f.extend behind).sectionNames = f.sectionNames := by
  unfold sectionNames
  rw [fixed_extend behind hf hh 2 (by decide) (by decide), firstSection_extend behind hf hh]

theorem checkSectionNames_extend : (f.extend behind).checkSectionNames = f.checkSectionNames := by
  unfold checkSectionNames
  rw [sectionNames_extend behind hf hh]

theorem programs_extend : (f.extend behind).programs = f.programs := by
  have htable := table_congr behind fun _ h => programHeader_extend behind hf h
  unfold programs
  rw [programStart_extend behind hf hh, programCount_extend behind hf hh,
    fixed_extend behind hf hh 2 (by decide) (by decide), programEntry_extend]
  simp only [htable]

theorem sections_extend : (f.extend behind).sections = f.sections := by
  have htable := table_congr behind fun _ h => sectionHeader_extend behind hf h
  unfold sections
  rw [sectionStart_extend behind hf hh, sectionCount_extend behind hf hh,
    fixed_extend behind hf hh 2 (by decide) (by decide), sectionEntry_extend]
  simp only [htable]

end Header

/-! ## Symbols -/

theorem symbolsOf_extend (table : List SectionHeader) (type : Nat) :
    (f.extend behind).symbolsOf table type = f.symbolsOf table type := by
  unfold symbolsOf
  dsimp only
  rw [holds_extend, symbolEntry_extend]
  split
  · rfl
  · rename_i s hs
    by_cases h : f.holds s.offset s.size = true
    · have hwhole : f.holds s.offset (s.size / f.symbolEntry * f.symbolEntry) = true := by
        have hle := Nat.div_mul_le_self s.size f.symbolEntry
        rw [holds_iff] at h ⊢
        omega
      rw [entries_congr hwhole fun _ hentry => symbol_extend behind hf hentry]
    · simp only [h, Bool.not_false, if_true]
      rfl

theorem nameAt_extend : (f.extend behind).nameAt = f.nameAt := by
  funext names offset
  unfold nameAt
  dsimp only
  by_cases h : names.1 + offset ≤ names.2 ∧ names.2 ≤ f.size
  · rw [extract_extend behind hf h.2]
    rfl
  · rw [if_neg h]
    exact if_neg h

theorem functionOf_extend : (f.extend behind).functionOf = f.functionOf := by
  unfold functionOf
  rw [nameAt_extend behind hf]

/-! ## The whole file -/

theorem load_extend : (f.extend behind).load = f.load := by
  funext image p
  unfold load
  rw [holds_extend]
  by_cases h : f.holds p.offset p.size = true
  · rw [extract_extend behind hf (holds_iff.1 h)]
  · simp only [h, Bool.not_false, if_true]

theorem tables_extend (hh : f.holds 0 f.headerSize = true) : (f.extend behind).tables = f.tables := by
  unfold tables
  rw [programs_extend behind hf hh, sections_extend behind hf hh, checkSectionNames_extend behind hf hh]
  simp only [symbolsOf_extend behind hf]

end Presence

theorem ofBytes_append (bytes behind : Array UInt8) : ofBytes (bytes ++ behind) bytes.size =
    (ofBytes bytes bytes.size).map (·.extend behind) := by
  unfold ofBytes
  by_cases hsize : bytes.size < magicSize
  · simp only [hsize, if_true]
    rfl
  · rw [extract_append_of_le (Nat.le_of_not_lt hsize)]
    simp only [hsize, if_false]
    cases classOf (bytes.extract 0 magicSize).toList with
    | error fault => rfl
    | ok layout =>
      dsimp only [bind, Except.bind, holds, headerSize]
      by_cases hheader : 0 + layout.select 52 64 ≤ bytes.size
      · simp only [hheader, decide_true, Bool.not_true, Bool.false_eq_true, if_false]
        split <;> rfl
      · simp only [hheader, decide_false, Bool.not_false, if_true]
        rfl

/-- A file that is read has all its bytes, and its header among them. -/
theorem holds_of_ofBytes {bytes : Array UInt8} {size : Nat} {f : ElfFile} (h : ofBytes bytes size = .ok f) :
    f.bytes = bytes ∧ f.size = size ∧ f.holds 0 f.headerSize = true := by
  unfold ofBytes at h
  dsimp only [bind, Except.bind] at h
  split at h
  · cases h
  · split at h
    · cases h
    · split at h
      · cases h
      · rename_i hheader
        split at h
        · cases h
          rw [Bool.not_eq_true', Bool.not_eq_false] at hheader
          exact ⟨rfl, rfl, hheader⟩
        · cases h

theorem isPresent_of_ofBytes {bytes : Array UInt8} {f : ElfFile} (h : ofBytes bytes bytes.size = .ok f) :
    f.IsPresent := by
  obtain ⟨hbytes, hsize, -⟩ := holds_of_ofBytes h
  exact Nat.le_of_eq (hsize.trans (congrArg Array.size hbytes.symm))

end ElfFile

/-- What lies behind a file has no influence on its image. -/
theorem Image.ofElf_append (bytes behind : Array UInt8) : ofElf (bytes ++ behind) bytes.size = ofElf bytes := by
  unfold ofElf
  rw [ElfFile.ofBytes_append]
  cases hfile : ElfFile.ofBytes bytes bytes.size with
  | error fault => rfl
  | ok f =>
    have hf := ElfFile.isPresent_of_ofBytes hfile
    obtain ⟨-, -, hheader⟩ := ElfFile.holds_of_ofBytes hfile
    dsimp only [Except.map]
    rw [ElfFile.tables_extend behind hf hheader, ElfFile.load_extend behind hf, ElfFile.functionOf_extend behind hf]

end TaintReplay
