import TaintReplay.Proofs.Image.Footprint

/-!
# What is loaded from a file

A file whose tables can be read (`ElfFile.Parsed`) is loaded as a whole or not at all. The first entry of the program
table that is faulty decides the error, whatever was loaded before it; without one, the segments are the entries that
have bytes to load, in the order of the table (`foldlM_load`, from one entry at a time). Symbols only add functions, if
their name can be read (`nameAt_eq_some_iff`). All of this is collected in `Image.ofElf_exact`.
-/

namespace TaintReplay

theorem exists_of_bind_eq_ok {ε α β : Type} {x : Except ε α} {g : α → Except ε β} {b : β} (h : x >>= g = .ok b) :
    ∃ a, x = .ok a ∧ g a = .ok b := by
  cases x with
  | error e => cases h
  | ok a => exact ⟨a, rfl, h⟩

/-! ## Entries of the program table -/

namespace ProgramHeader

/-- There are bytes to load. -/
def Loads (p : ProgramHeader) : Prop := p.type = ElfFile.loadable ∧ p.size ≠ 0

instance (p : ProgramHeader) : Decidable p.Loads := inferInstanceAs (Decidable (_ ∧ _))

/-- The entry is to be loaded, but its bytes are not all in a file of some size or reach beyond the address space. -/
def Faulty (p : ProgramHeader) (size : Nat) : Prop :=
  p.type = ElfFile.loadable ∧ (size < p.offset + p.size ∨ UInt64.size ≤ p.address.toNat + p.size)

/-- What is reported of a faulty entry: that its bytes are missing comes first. -/
def fault (p : ProgramHeader) (size : Nat) : ImageError :=
  if size < p.offset + p.size then .malformed .segmentRange else .wraps p.address p.size

theorem fault_ne_empty (p : ProgramHeader) (size : Nat) : p.fault size ≠ .empty := by
  unfold fault
  split
  · exact ImageError.noConfusion
  · exact ImageError.noConfusion

end ProgramHeader

/-- Where a segment begins, and its bytes. -/
def Segment.contents (s : Segment) : UInt64 × Array UInt8 := (s.start, s.data)

namespace Image

variable (image : Image) {start : UInt64} {data : Array UInt8}

theorem map_of_wraps (h : UInt64.size ≤ start.toNat + data.size) :
    image.map start data = .error (.wraps start data.size) :=
  dif_neg (Nat.not_lt.2 h)

theorem exists_map (h : start.toNat + data.size < UInt64.size) : ∃ loaded, image.map start data = .ok loaded ∧
    loaded.segments.map Segment.contents = image.segments.map Segment.contents ++ [(start, data)] ∧
    loaded.functions = image.functions := by
  refine ⟨_, dif_pos h, ?_, rfl⟩
  rw [List.map_append]
  rfl

end Image

namespace ElfFile

variable {f : ElfFile} {p : ProgramHeader}

/-- The bytes of an entry. -/
def slice (f : ElfFile) (p : ProgramHeader) : Array UInt8 := f.bytes.extract p.offset (p.offset + p.size)

theorem size_slice (hf : f.IsPresent) (h : p.offset + p.size ≤ f.size) : (f.slice p).size = p.size := by
  have hbytes := Nat.le_trans h hf
  rw [slice, Array.size_extract]
  omega

/-! ## Loading one entry and all of them -/

theorem load_of_faulty (hf : f.IsPresent) (h : p.Faulty f.size) (image : Image) :
    f.load image p = .error (p.fault f.size) := by
  obtain ⟨htype, hfault⟩ := h
  unfold load ProgramHeader.fault
  rw [if_neg (fun hother => hother htype)]
  by_cases hrange : f.size < p.offset + p.size
  · have hholds : f.holds p.offset p.size = false := by
      rw [holds, decide_eq_false_iff_not]
      exact Nat.not_le.2 hrange
    rw [hholds, if_pos hrange]
    rfl
  · have hwraps : UInt64.size ≤ p.address.toNat + p.size := hfault.resolve_left hrange
    have hholds : f.holds p.offset p.size = true := holds_iff.2 (Nat.le_of_not_lt hrange)
    have hsize := size_slice hf (holds_iff.1 hholds)
    have hbytes : p.size ≠ 0 := by
      have hlt := p.address.toNat_lt
      simp only [UInt64.size] at hwraps
      omega
    rw [hholds, if_neg hrange, if_neg hbytes]
    rw [← hsize] at hwraps
    exact (image.map_of_wraps hwraps).trans (by rw [hsize])

theorem exists_load (hf : f.IsPresent) (h : ¬p.Faulty f.size) (image : Image) :
    ∃ loaded, f.load image p = .ok loaded ∧
    loaded.segments.map Segment.contents =
      image.segments.map Segment.contents ++ (if p.Loads then [(p.address, f.slice p)] else []) ∧
    loaded.functions = image.functions := by
  unfold load
  by_cases htype : p.type = loadable
  · obtain ⟨hrange, hspace⟩ := not_or.1 (fun hfault => h ⟨htype, hfault⟩)
    have hholds : f.holds p.offset p.size = true := holds_iff.2 (Nat.le_of_not_lt hrange)
    have hsize := size_slice hf (holds_iff.1 hholds)
    rw [if_neg (fun hother => hother htype), hholds]
    by_cases hbytes : p.size = 0
    · exact ⟨image, if_pos hbytes, by simp [ProgramHeader.Loads, hbytes], rfl⟩
    · rw [← hsize] at hspace
      obtain ⟨loaded, hmap, hsegments, hfunctions⟩ := image.exists_map (Nat.lt_of_not_le hspace)
      refine ⟨loaded, (if_neg hbytes).trans hmap, ?_, hfunctions⟩
      rw [hsegments, if_pos ⟨htype, hbytes⟩]
  · exact ⟨image, if_pos htype, by simp [ProgramHeader.Loads, htype], rfl⟩

/-- Either all entries are loaded, or none of them is and the first faulty one is reported. -/
theorem foldlM_load (hf : f.IsPresent) (programs : List ProgramHeader) (image : Image) :
    (∃ before p after, programs = before ++ p :: after ∧ (∀ q ∈ before, ¬q.Faulty f.size) ∧ p.Faulty f.size ∧
      programs.foldlM f.load image = .error (p.fault f.size)) ∨
    ((∀ p ∈ programs, ¬p.Faulty f.size) ∧ ∃ loaded, programs.foldlM f.load image = .ok loaded ∧
      loaded.segments.map Segment.contents = image.segments.map Segment.contents ++
        (programs.filter (·.Loads)).map (fun p => (p.address, f.slice p)) ∧
      loaded.functions = image.functions) := by
  induction programs generalizing image with
  | nil => exact .inr ⟨fun p hp => absurd hp List.not_mem_nil, image, rfl, by simp, rfl⟩
  | cons p programs ih =>
    rw [List.foldlM_cons]
    by_cases hp : p.Faulty f.size
    · refine .inl ⟨[], p, programs, rfl, fun q hq => absurd hq List.not_mem_nil, hp, ?_⟩
      rw [load_of_faulty hf hp image]
      rfl
    · obtain ⟨next, hnext, hsegments, hfunctions⟩ := exists_load hf hp image
      rw [hnext]
      rcases ih next with ⟨before, q, after, hsplit, hbefore, hq, herror⟩ | ⟨hnone, loaded, hloaded, hmore, hsame⟩
      · refine .inl ⟨p :: before, q, after, by rw [hsplit, List.cons_append], ?_, hq, herror⟩
        exact List.forall_mem_cons.2 ⟨hp, hbefore⟩
      · refine .inr ⟨List.forall_mem_cons.2 ⟨hp, hnone⟩, loaded, hloaded, ?_, hsame.trans hfunctions⟩
        rw [hmore, hsegments, List.filter_cons]
        by_cases hl : p.Loads
        all_goals simp [hl]

theorem exists_of_mem_segments {segments : List Segment} {programs : List ProgramHeader}
    (h : segments.map Segment.contents = (programs.filter (·.Loads)).map fun p => (p.address, f.slice p))
    {s : Segment} (hs : s ∈ segments) : ∃ p ∈ programs, p.Loads ∧ (p.address, f.slice p) = s.contents := by
  have hmem : s.contents ∈ segments.map Segment.contents := List.mem_map_of_mem hs
  rw [h] at hmem
  obtain ⟨p, hp, hcontents⟩ := List.mem_map.1 hmem
  obtain ⟨hp, hloads⟩ := List.mem_filter.1 hp
  exact ⟨p, hp, of_decide_eq_true hloads, hcontents⟩

/-! ## Functions -/

/-- At an offset of a range is the text of a name, with the first zero behind it. -/
def Names (f : ElfFile) (names : Nat × Nat) (offset : Nat) (name : String) : Prop :=
  names.2 ≤ f.size ∧ ∃ stop, names.1 + offset ≤ stop ∧ stop < names.2 ∧ f.bytes[stop]? = some 0 ∧
    (∀ i, names.1 + offset ≤ i → i < stop → f.bytes[i]? ≠ some 0) ∧
    name.toUTF8.data = f.bytes.extract (names.1 + offset) stop

theorem fromUTF8?_eq_some_iff {bytes : ByteArray} {text : String} :
    String.fromUTF8? bytes = some text ↔ text.toUTF8 = bytes := by
  unfold String.fromUTF8?
  split
  · rw [Option.some.injEq]
    constructor
    · rintro rfl
      rfl
    · rintro rfl
      rfl
  · rename_i hinvalid
    constructor
    · intro h
      cases h
    · rintro rfl
      exact absurd text.isValidUTF8 hinvalid

theorem findIdx?_zero_eq_some_iff {bytes : Array UInt8} {n : Nat} :
    bytes.findIdx? (· == 0) = some n ↔ bytes[n]? = some 0 ∧ ∀ i < n, bytes[i]? ≠ some 0 := by
  rw [Array.findIdx?_eq_some_iff_getElem]
  constructor
  · rintro ⟨hn, hzero, hbefore⟩
    refine ⟨by rw [Array.getElem?_eq_getElem hn, beq_iff_eq.1 hzero], fun i hi hsame => ?_⟩
    rw [Array.getElem?_eq_getElem (Nat.lt_trans hi hn), Option.some.injEq] at hsame
    exact hbefore i hi (beq_iff_eq.2 hsame)
  · rintro ⟨hzero, hbefore⟩
    obtain ⟨hn, hzero⟩ := Array.getElem?_eq_some_iff.1 hzero
    refine ⟨hn, beq_iff_eq.2 hzero, fun i hi hsame => hbefore i hi ?_⟩
    rw [Array.getElem?_eq_getElem (Nat.lt_trans hi hn), beq_iff_eq.1 hsame]

theorem nameAt_eq_some_iff (hf : f.IsPresent) (names : Nat × Nat) (offset : Nat) (name : String) :
    f.nameAt names offset = some name ↔ f.Names names offset name := by
  unfold nameAt Names
  generalize names.1 + offset = start
  dsimp only
  by_cases hfits : start ≤ names.2 ∧ names.2 ≤ f.size
  · obtain ⟨hstart, hend⟩ := hfits
    have hpresent : names.2 ≤ f.bytes.size := Nat.le_trans hend hf
    have hbyte (i : Nat) : (f.bytes.extract start names.2)[i]? =
        if start + i < names.2 then f.bytes[start + i]? else none := by
      rw [Array.getElem?_extract, Nat.min_eq_left hpresent]
      by_cases hi : start + i < names.2
      · rw [if_pos hi, if_pos (by omega)]
      · rw [if_neg hi, if_neg (by omega)]
    have hfront {n : Nat} (hn : start + n < names.2) :
        (f.bytes.extract start names.2).extract 0 n = f.bytes.extract start (start + n) := by
      rw [Array.extract_extract, Nat.add_zero, Nat.min_eq_left (Nat.le_of_lt hn)]
    rw [if_pos ⟨hstart, hend⟩, Option.bind_eq_some_iff]
    constructor
    · rintro ⟨n, hn, htext⟩
      rw [findIdx?_zero_eq_some_iff, hbyte] at hn
      obtain ⟨hzero, hbefore⟩ := hn
      by_cases hlt : start + n < names.2
      · rw [if_pos hlt] at hzero
        rw [fromUTF8?_eq_some_iff, hfront hlt] at htext
        refine ⟨hend, start + n, Nat.le_add_right _ _, hlt, hzero, fun i hi hin => ?_, by rw [htext]⟩
        have hi' := hbefore (i - start) (by omega)
        rwa [hbyte, if_pos (by omega), Nat.add_sub_cancel' hi] at hi'
      · rw [if_neg hlt] at hzero
        cases hzero
    · rintro ⟨-, stop, hfrom, hstop, hzero, hbefore, htext⟩
      obtain ⟨n, rfl⟩ := Nat.exists_eq_add_of_le hfrom
      refine ⟨n, findIdx?_zero_eq_some_iff.2 ⟨by rw [hbyte, if_pos hstop, hzero], fun i hi => ?_⟩, ?_⟩
      · rw [hbyte, if_pos (by omega)]
        exact hbefore (start + i) (Nat.le_add_right _ _) (by omega)
      · rw [fromUTF8?_eq_some_iff, hfront hstop, ← htext]
  · rw [if_neg hfits]
    constructor
    · intro h
      cases h
    · rintro ⟨hend, stop, hstart, hstop, -⟩
      exact absurd ⟨by omega, hend⟩ hfits

/-- The function that a symbol is, if it has a size, an end and a name. -/
def functionRange (f : ElfFile) (names : Nat × Nat) (s : ElfSymbol) : Option FunctionRange :=
  if s.type = functionSymbol ∧ s.size ≠ 0 ∧ s.value.toNat + s.size.toNat < UInt64.size then
    (f.nameAt names s.name).map fun name => { start := s.value, stop := s.value + s.size, name }
  else none

theorem functionOf_eq (f : ElfFile) (names : Nat × Nat) (s : ElfSymbol) :
    (f.functionOf names s).2 = f.functionRange names s := by
  unfold functionOf functionRange
  by_cases hkind : s.type ≠ functionSymbol ∨ s.size = 0
  · rw [if_pos hkind, if_neg]
    rintro ⟨htype, hsize, -⟩
    exact hkind.elim (fun hother => hother htype) hsize
  · obtain ⟨htype, hsize⟩ := not_or.1 hkind
    rw [if_neg hkind]
    by_cases hspace : s.value.toNat + s.size.toNat < UInt64.size
    · rw [if_pos hspace, if_pos ⟨Decidable.not_not.1 htype, hsize, hspace⟩]
    · rw [if_neg hspace, if_neg fun h => hspace h.2.2]

theorem start_lt_stop_of_functionRange {names : Nat × Nat} {s : ElfSymbol} {g : FunctionRange}
    (h : f.functionRange names s = some g) : g.start < g.stop := by
  unfold functionRange at h
  split at h
  · rename_i hkind
    obtain ⟨-, hsize, hspace⟩ := hkind
    obtain ⟨name, -, rfl⟩ := Option.map_eq_some_iff.1 h
    have hpos : s.size.toNat ≠ 0 := fun hzero => hsize (UInt64.toNat_inj.1 hzero)
    simp only [UInt64.size] at hspace
    change s.value < s.value + s.size
    rw [UInt64.lt_iff_toNat_lt, UInt64.toNat_add]
    omega
  · cases h

/-! ## Tables -/

/-- A file whose tables can be read, with the entries of the program table and the symbols. -/
structure Parsed (bytes : Array UInt8) where
  file : ElfFile
  programs : List ProgramHeader
  symbols : Symbols
  ofBytes_eq : ofBytes bytes bytes.size = .ok file
  tables_eq : file.tables = .ok (programs, symbols)

/-- The symbols are those of the first section of symbols, with the names of the section that it links to. -/
def SymbolsFrom (f : ElfFile) (sections : List SectionHeader) (symbols : Symbols) : Prop :=
  match sections.find? (·.type == symbolTable) with
  | none => symbols.symbols = []
  | some s => f.holds s.offset s.size = true ∧
      symbols.symbols = entries s.offset f.symbolEntry (s.size / f.symbolEntry) f.symbol ∧
      ∃ strings, sections[s.link]? = some strings ∧ strings.type = stringTable ∧
        symbols.names = (strings.offset, strings.offset + strings.size)

theorem holds_entry_of_table {α : Type} {start size count : Nat} {entry : Nat → α} {fault : ElfFault} {found : List α}
    (h : f.table start size count entry fault = .ok found) :
    found = entries start size found.length entry ∧ ∀ i < found.length, f.holds (start + i * size) size = true := by
  unfold table at h
  split at h
  · rename_i hholds
    cases h
    have hlength : (entries start size count entry).length = count := by simp [entries]
    rw [hlength]
    refine ⟨rfl, fun i hi => ?_⟩
    have hlast : (i + 1) * size ≤ count * size := Nat.mul_le_mul_right size hi
    rw [Nat.succ_mul] at hlast
    rw [holds_iff] at hholds ⊢
    omega
  · cases h

/-- The entries of the program table are its records, one behind the other and all in the file. -/
theorem programs_eq_entries {programs : List ProgramHeader} (h : f.programs = .ok programs) :
    programs = entries f.programStart f.programEntry programs.length f.programHeader ∧
      ∀ i < programs.length, f.holds (f.programStart + i * f.programEntry) f.programEntry = true := by
  unfold ElfFile.programs at h
  split at h
  · cases h
    exact ⟨rfl, fun i hi => absurd hi (Nat.not_lt_zero i)⟩
  · obtain ⟨count, -, h⟩ := exists_of_bind_eq_ok h
    split at h
    · cases h
      exact ⟨rfl, fun i hi => absurd hi (Nat.not_lt_zero i)⟩
    · split at h
      · cases h
      · exact holds_entry_of_table h

theorem symbolsFrom_of_symbolsOf {sections : List SectionHeader} {symbols : Symbols}
    (h : f.symbolsOf sections symbolTable = .ok symbols) : f.SymbolsFrom sections symbols := by
  unfold symbolsOf at h
  dsimp only at h
  unfold SymbolsFrom
  rw [List.find?_eq_getElem?_findIdx]
  cases hs : sections[sections.findIdx (·.type == symbolTable)]? with
  | none =>
    rw [hs] at h
    cases h
    rfl
  | some s =>
    rw [hs] at h
    dsimp only at h ⊢
    by_cases hholds : f.holds s.offset s.size = true
    · cases hstrings : sections[s.link]? with
      | none =>
        rw [hstrings, hholds] at h
        cases h
      | some strings =>
        rw [hstrings, hholds] at h
        dsimp only at h
        by_cases htype : strings.type = stringTable
        · rw [if_neg (by decide), if_neg (not_not_intro htype)] at h
          refine ⟨hholds, ?_⟩
          split at h
          · cases h
          · split at h
            · cases h
            · cases h
              exact ⟨rfl, strings, rfl, htype, rfl⟩
        · rw [if_neg (by decide), if_pos htype] at h
          cases h
    · rw [Bool.not_eq_true] at hholds
      rw [hholds] at h
      cases h

namespace Parsed

variable {bytes : Array UInt8} (t : Parsed bytes)

theorem bytes_file : t.file.bytes = bytes := (holds_of_ofBytes t.ofBytes_eq).1

theorem size_file : t.file.size = bytes.size := (holds_of_ofBytes t.ofBytes_eq).2.1

theorem isPresent_file : t.file.IsPresent := isPresent_of_ofBytes t.ofBytes_eq

theorem exists_sections : t.file.programs = .ok t.programs ∧
    ∃ sections, t.file.sections = .ok sections ∧ t.file.SymbolsFrom sections t.symbols := by
  have h := t.tables_eq
  unfold ElfFile.tables at h
  obtain ⟨programs, hprograms, h⟩ := exists_of_bind_eq_ok h
  obtain ⟨sections, hsections, h⟩ := exists_of_bind_eq_ok h
  obtain ⟨-, -, h⟩ := exists_of_bind_eq_ok h
  obtain ⟨symbols, hsymbols, h⟩ := exists_of_bind_eq_ok h
  obtain ⟨-, -, h⟩ := exists_of_bind_eq_ok h
  obtain ⟨-, -, h⟩ := exists_of_bind_eq_ok h
  obtain ⟨rfl, rfl⟩ := Prod.mk.inj (Except.ok.inj h)
  exact ⟨hprograms, sections, hsections, symbolsFrom_of_symbolsOf hsymbols⟩

end Parsed

end ElfFile

/-! ## The image of a file -/

namespace Image

/-- The image has what the tables of a file say: each entry of the program table with bytes to load, and each function
symbol with a size, an end and a name. -/
structure LoadedFrom (image : Image) {bytes : Array UInt8} (t : ElfFile.Parsed bytes) : Prop where
  /-- The entries are the records of the program table, all of them in the file. -/
  programTable : t.programs =
      ElfFile.entries t.file.programStart t.file.programEntry t.programs.length t.file.programHeader ∧
    ∀ i < t.programs.length, t.file.holds (t.file.programStart + i * t.file.programEntry) t.file.programEntry = true
  segments : image.segments.map Segment.contents =
    (t.programs.filter (·.Loads)).map fun p => (p.address, bytes.extract p.offset (p.offset + p.size))
  inFile : ∀ p ∈ t.programs, p.Loads → p.offset + p.size ≤ bytes.size
  inSpace : ∀ s ∈ image.segments, 0 < s.data.size ∧ s.start.toNat + s.data.size < UInt64.size
  loaded : image.segments ≠ []
  /-- The symbols are those of the first section of symbols. -/
  symbolTable : ∃ sections, t.file.sections = .ok sections ∧ t.file.SymbolsFrom sections t.symbols
  functions : image.functions = t.symbols.symbols.filterMap (t.file.functionRange t.symbols.names)
  named : ∀ offset name, t.file.nameAt t.symbols.names offset = some name ↔
    t.file.Names t.symbols.names offset name
  forward : ∀ g ∈ image.functions, g.start < g.stop

theorem foldl_addFunction (functions : List FunctionRange) (image : Image) :
    functions.foldl addFunction image = { image with functions := image.functions ++ functions } := by
  induction functions generalizing image with
  | nil => rw [List.foldl_nil, List.append_nil]
  | cons g functions ih =>
    rw [List.foldl_cons, ih]
    simp [addFunction]

section Parsed

variable {bytes : Array UInt8} (t : ElfFile.Parsed bytes)

theorem ofElf_of_parsed : (ofElf bytes).2 = (t.programs.foldlM t.file.load {}).bind fun image =>
    if image.segments.isEmpty then .error .empty
    else .ok { image with
      functions := image.functions ++ t.symbols.symbols.filterMap (t.file.functionRange t.symbols.names) } := by
  have hfunctions : (t.symbols.symbols.map (t.file.functionOf t.symbols.names)).filterMap (·.2) =
      t.symbols.symbols.filterMap (t.file.functionRange t.symbols.names) := by
    rw [List.filterMap_map]
    exact congrArg (t.symbols.symbols.filterMap ·) (funext (t.file.functionOf_eq t.symbols.names))
  unfold ofElf
  rw [t.ofBytes_eq]
  dsimp only
  rw [t.tables_eq]
  dsimp only
  cases t.programs.foldlM t.file.load {} with
  | error e => rfl
  | ok image =>
    dsimp only
    rw [hfunctions, foldl_addFunction]
    rfl

theorem loadedFrom_of_segments {image : Image} (hnone : ∀ p ∈ t.programs, ¬p.Faulty bytes.size)
    (hsegments : image.segments.map Segment.contents =
      (t.programs.filter (·.Loads)).map fun p => (p.address, t.file.slice p)) (hloaded : image.segments ≠ [])
    (hfunctions : image.functions = t.symbols.symbols.filterMap (t.file.functionRange t.symbols.names)) :
    image.LoadedFrom t := by
  obtain ⟨hprograms, hsymbols⟩ := t.exists_sections
  have hfile : ∀ p ∈ t.programs, p.Loads → p.offset + p.size ≤ bytes.size := fun p hp hloads =>
    Nat.le_of_not_lt fun hrange => hnone p hp ⟨hloads.1, .inl hrange⟩
  refine {
    programTable := ElfFile.programs_eq_entries hprograms
    segments := ?_
    inFile := hfile
    inSpace := fun s hs => ⟨?_, s.inSpace⟩
    loaded := hloaded
    symbolTable := hsymbols
    functions := hfunctions
    named := ElfFile.nameAt_eq_some_iff t.isPresent_file t.symbols.names
    forward := fun g hg => ?_ }
  · unfold ElfFile.slice at hsegments
    rwa [t.bytes_file] at hsegments
  · obtain ⟨p, hp, hloads, hcontents⟩ := ElfFile.exists_of_mem_segments hsegments hs
    have hdata : t.file.slice p = s.data := congrArg Prod.snd hcontents
    have hwhole := hfile p hp hloads
    rw [← t.size_file] at hwhole
    rw [← hdata, ElfFile.size_slice t.isPresent_file hwhole]
    exact Nat.pos_of_ne_zero hloads.2
  · rw [hfunctions] at hg
    obtain ⟨s, -, hs⟩ := List.mem_filterMap.1 hg
    exact ElfFile.start_lt_stop_of_functionRange hs

/-- A file whose tables can be read is refused for its first faulty entry, or because nothing is to be loaded, or it is
loaded. -/
theorem ofElf_cases :
    (∃ before p after, t.programs = before ++ p :: after ∧ (∀ q ∈ before, ¬q.Faulty bytes.size) ∧ p.Faulty bytes.size ∧
      (ofElf bytes).2 = .error (p.fault bytes.size)) ∨
    ((∀ p ∈ t.programs, ¬p.Faulty bytes.size) ∧
      ((∀ p ∈ t.programs, ¬p.Loads) ∧ (ofElf bytes).2 = .error .empty ∨
        (∃ p ∈ t.programs, p.Loads) ∧ ∃ image, (ofElf bytes).2 = .ok image ∧ image.LoadedFrom t)) := by
  have hrun := ElfFile.foldlM_load t.isPresent_file t.programs {}
  rw [t.size_file] at hrun
  rw [ofElf_of_parsed t]
  rcases hrun with ⟨before, p, after, hsplit, hbefore, hp, herror⟩ | ⟨hnone, loaded, hloaded, hsegments, hfunctions⟩
  · exact .inl ⟨before, p, after, hsplit, hbefore, hp, by rw [herror]; rfl⟩
  · refine .inr ⟨hnone, ?_⟩
    rw [hloaded]
    rw [List.map_nil, List.nil_append] at hsegments
    dsimp only [Except.bind]
    by_cases hempty : loaded.segments = []
    · refine .inl ⟨fun p hp hloads => ?_, by rw [hempty]; rfl⟩
      rw [hempty, List.map_nil] at hsegments
      have hmem : p ∈ t.programs.filter (·.Loads) := List.mem_filter.2 ⟨hp, decide_eq_true hloads⟩
      rw [List.map_eq_nil_iff.1 hsegments.symm] at hmem
      exact List.not_mem_nil hmem
    · refine .inr ⟨?_, _, if_neg (by simpa using hempty), loadedFrom_of_segments t hnone hsegments hempty ?_⟩
      · obtain ⟨s, hs⟩ := List.exists_mem_of_ne_nil _ hempty
        obtain ⟨p, hp, hloads, -⟩ := ElfFile.exists_of_mem_segments hsegments hs
        exact ⟨p, hp, hloads⟩
      · rw [hfunctions, List.nil_append]

theorem loadedFrom_of_ok {image : Image} (hok : (ofElf bytes).2 = .ok image) :
    (∀ p ∈ t.programs, ¬p.Faulty bytes.size) ∧ image.LoadedFrom t := by
  rcases ofElf_cases t with ⟨before, p, after, -, -, -, herror⟩ | ⟨hnone, ⟨-, hempty⟩ | ⟨-, loaded, hloaded, hfrom⟩⟩
  · rw [herror] at hok
    cases hok
  · rw [hempty] at hok
    cases hok
  · rw [hloaded] at hok
    cases hok
    exact ⟨hnone, hfrom⟩

/-- Whatever is before it, the first faulty entry is reported. -/
theorem ofElf_of_faulty (hfaulty : ∃ p ∈ t.programs, p.Faulty bytes.size) :
    ∃ before p after, t.programs = before ++ p :: after ∧ (∀ q ∈ before, ¬q.Faulty bytes.size) ∧
      p.Faulty bytes.size ∧ (ofElf bytes).2 = .error (p.fault bytes.size) := by
  rcases ofElf_cases t with hfirst | ⟨hnone, -⟩
  · exact hfirst
  · obtain ⟨p, hp, hfault⟩ := hfaulty
    exact absurd hfault (hnone p hp)

/-- Symbols do not keep a file from being loaded. -/
theorem exists_ofElf_eq_ok (hnone : ∀ p ∈ t.programs, ¬p.Faulty bytes.size) (hsome : ∃ p ∈ t.programs, p.Loads) :
    ∃ image, (ofElf bytes).2 = .ok image := by
  rcases ofElf_cases t with ⟨before, p, after, hsplit, -, hp, -⟩ | ⟨-, ⟨hempty, -⟩ | ⟨-, image, hok, -⟩⟩
  · have hmem : p ∈ t.programs := by simp [hsplit]
    exact absurd hp (hnone p hmem)
  · obtain ⟨p, hp, hloads⟩ := hsome
    exact absurd hloads (hempty p hp)
  · exact ⟨image, hok⟩

theorem ofElf_eq_empty_iff : (ofElf bytes).2 = .error .empty ↔
    (∀ p ∈ t.programs, ¬p.Faulty bytes.size) ∧ ∀ p ∈ t.programs, ¬p.Loads := by
  rcases ofElf_cases t with
    ⟨before, p, after, hsplit, -, hp, herror⟩ | ⟨hnone, ⟨hnothing, hempty⟩ | ⟨⟨p, hp, hloads⟩, image, hok, -⟩⟩
  · have hmem : p ∈ t.programs := by simp [hsplit]
    rw [herror, Except.error.injEq]
    exact iff_of_false (p.fault_ne_empty bytes.size) fun h => h.1 p hmem hp
  · exact iff_of_true hempty ⟨hnone, hnothing⟩
  · have hne : (ofElf bytes).2 ≠ .error .empty := by
      rw [hok]
      simp
    exact iff_of_false hne fun h => h.2 p hp hloads

end Parsed

/-- The tables of a file can be read, or it is refused for what is wrong with them. -/
theorem parsed_or_malformed (bytes : Array UInt8) : Nonempty (ElfFile.Parsed bytes) ∨
    ∃ fault, ofElf bytes = ([], .error (.malformed fault)) := by
  cases hfile : ElfFile.ofBytes bytes bytes.size with
  | error fault =>
    refine .inr ⟨fault, ?_⟩
    rw [ofElf, hfile]
  | ok f =>
    cases htables : f.tables with
    | error fault =>
      refine .inr ⟨fault, ?_⟩
      rw [ofElf, hfile]
      dsimp only
      rw [htables]
    | ok tables => exact .inl ⟨f, tables.1, tables.2, hfile, htables⟩

/-- Loading is exact, whole or not at all, and confined to the file. Bytes behind the file are not read. An image that
is returned has just what the tables say, and no entry is faulty. If one is, the first of them is reported, whatever is
before it; else the image is returned as soon as there is something to load, whatever the symbols are. It is said to be
empty iff the tables can be read, no entry is faulty and none has bytes to load. If the tables cannot be read, this is
reported. -/
theorem ofElf_exact (bytes : Array UInt8) :
    (∀ behind, ofElf (bytes ++ behind) bytes.size = ofElf bytes) ∧
    (∀ image, (ofElf bytes).2 = .ok image → ∃ t : ElfFile.Parsed bytes,
      (∀ p ∈ t.programs, ¬p.Faulty bytes.size) ∧ image.LoadedFrom t) ∧
    (∀ t : ElfFile.Parsed bytes,
      ((∃ p ∈ t.programs, p.Faulty bytes.size) → ∃ before p after, t.programs = before ++ p :: after ∧
        (∀ q ∈ before, ¬q.Faulty bytes.size) ∧ p.Faulty bytes.size ∧
        (ofElf bytes).2 = .error (p.fault bytes.size)) ∧
      ((∀ p ∈ t.programs, ¬p.Faulty bytes.size) → (∃ p ∈ t.programs, p.Loads) →
        ∃ image, (ofElf bytes).2 = .ok image)) ∧
    ((ofElf bytes).2 = .error .empty ↔ ∃ t : ElfFile.Parsed bytes,
      (∀ p ∈ t.programs, ¬p.Faulty bytes.size) ∧ ∀ p ∈ t.programs, ¬p.Loads) ∧
    (Nonempty (ElfFile.Parsed bytes) ∨ ∃ fault, ofElf bytes = ([], .error (.malformed fault))) := by
  refine ⟨ofElf_append bytes, fun image hok => ?_, fun t => ⟨ofElf_of_faulty t, exists_ofElf_eq_ok t⟩,
    ⟨fun hempty => ?_, fun ⟨t, ht⟩ => (ofElf_eq_empty_iff t).2 ht⟩, parsed_or_malformed bytes⟩
  · rcases parsed_or_malformed bytes with ⟨⟨t⟩⟩ | ⟨fault, hfault⟩
    · exact ⟨t, loadedFrom_of_ok t hok⟩
    · rw [hfault] at hok
      cases hok
  · rcases parsed_or_malformed bytes with ⟨⟨t⟩⟩ | ⟨fault, hfault⟩
    · exact ⟨t, (ofElf_eq_empty_iff t).1 hempty⟩
    · rw [hfault] at hempty
      cases hempty

/-- One byte for the address 0x1000, behind a header and a program table with one entry. -/
example : (ofElf (#[0x7f, 0x45, 0x4c, 0x46, 1, 1, 1] ++ .replicate 21 0 ++ #[52] ++ .replicate 13 0 ++ #[32, 0, 1] ++
      .replicate 7 0 ++ #[1, 0, 0, 0, 84, 0, 0, 0, 0, 0x10] ++ .replicate 6 0 ++ #[1] ++ .replicate 15 0 ++
      #[0x90])).2.toOption.map (·.segments.map Segment.contents) = some [(0x1000, #[0x90])] := by
  decide +kernel

end Image

end TaintReplay
