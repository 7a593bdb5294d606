import TaintReplay.Image
import TaintReplay.Log

/-!
# ELF files

`Image.ofElf` loads the segments of an ELF file and takes its function symbols as functions. An `ElfFile` is a file
whose class and byte order are known; its tables are lists of records, each read by the layout of the class. The file is
checked in a fixed order, header, program table, section table, symbol tables, before anything is loaded, and the first
fault is reported. A file is the front of some bytes, and a number is read from the bytes wherever it is asked for:
that what is asked for is in the file is up to the checks.
-/

namespace TaintReplay

open Text

/-- The two classes of files, by the size of an address. -/
inductive ElfClass where
  | bits32
  | bits64
  deriving DecidableEq, Repr

/-- The one of two values that belongs to the class. -/
def ElfClass.select {α : Type} (c : ElfClass) (narrow wide : α) : α :=
  match c with
  | bits32 => narrow
  | bits64 => wide

structure ElfFile where
  bytes : Array UInt8
  /-- How many of the bytes are the file. -/
  size : Nat
  layout : ElfClass
  littleEndian : Bool

/-- An entry of the program table. -/
structure ProgramHeader where
  type : Nat
  offset : Nat
  address : UInt64
  size : Nat

/-- An entry of the section table. -/
structure SectionHeader where
  type : Nat
  offset : Nat
  size : Nat
  link : Nat
  info : Nat

/-- An entry of a symbol table. -/
structure ElfSymbol where
  name : Nat
  type : Nat
  value : UInt64
  size : UInt64

namespace ElfFile

/-! ## Numbers and ranges -/

/-- A number of `width` bytes at an offset. -/
def number (f : ElfFile) (offset width : Nat) : Nat :=
  let digits := (f.bytes.extract offset (offset + width)).toList
  let digits := if f.littleEndian then digits.reverse else digits
  digits.foldl (fun n b => n * 256 + b.toNat) 0

/-- A number at the offset that belongs to the class, of the width of an address. -/
def word (f : ElfFile) (start narrow wide : Nat) : Nat :=
  f.number (start + f.layout.select narrow wide) (f.layout.select 4 8)

/-- A number at the offset that belongs to the class, of a fixed width. -/
def fixed (f : ElfFile) (width start narrow wide : Nat) : Nat := f.number (start + f.layout.select narrow wide) width

/-- Does the file have so many bytes at an offset? -/
def holds (f : ElfFile) (offset count : Nat) : Bool := offset + count ≤ f.size

/-- The entries of a table. -/
def entries {α : Type} (start size count : Nat) (entry : Nat → α) : List α :=
  (List.range count).map fun i => entry (start + i * size)

/-- The entries of a table, if the file holds all of them. -/
def table {α : Type} (f : ElfFile) (start size count : Nat) (entry : Nat → α) (fault : ElfFault) :
    Except ElfFault (List α) :=
  if f.holds start (count * size) then .ok (entries start size count entry) else .error fault

/-! ## Tables -/

def headerSize (f : ElfFile) : Nat := f.layout.select 52 64
def programEntry (f : ElfFile) : Nat := f.layout.select 32 56
def sectionEntry (f : ElfFile) : Nat := f.layout.select 40 64
def symbolEntry (f : ElfFile) : Nat := f.layout.select 16 24

def programStart (f : ElfFile) : Nat := f.word 0 28 32
def sectionStart (f : ElfFile) : Nat := f.word 0 32 40

def programHeader (f : ElfFile) (start : Nat) : ProgramHeader where
  type := f.number start 4
  offset := f.word start 4 8
  address := UInt64.ofNat (f.word start 8 16)
  size := f.word start 16 32

def sectionHeader (f : ElfFile) (start : Nat) : SectionHeader where
  type := f.number (start + 4) 4
  offset := f.word start 16 24
  size := f.word start 20 32
  link := f.fixed 4 start 24 40
  info := f.fixed 4 start 28 44

def symbol (f : ElfFile) (start : Nat) : ElfSymbol where
  name := f.number start 4
  type := f.fixed 1 start 12 4 % 16
  value := UInt64.ofNat (f.word start 4 8)
  size := UInt64.ofNat (f.word start 8 16)

/-- The first section, which holds the counts that are too large for the header. -/
def firstSection (f : ElfFile) : Except ElfFault (Option SectionHeader) :=
  if f.sectionStart = 0 then .ok none
  else if f.fixed 2 0 46 58 ≠ f.sectionEntry then .error .sectionEntrySize
  else if f.holds f.sectionStart f.sectionEntry then .ok (some (f.sectionHeader f.sectionStart))
  else .error .firstSection

/-- A count in the header that stands for one kept in the first section. -/
def overflowCount : Nat := 0xffff

def programCount (f : ElfFile) : Except ElfFault Nat := do
  let count := f.fixed 2 0 44 56
  if count < overflowCount then return count
  match ← f.firstSection with
  | some first => return first.info
  | none => throw .programCount

def programs (f : ElfFile) : Except ElfFault (List ProgramHeader) := do
  if f.programStart = 0 then return []
  let count ← f.programCount
  if count = 0 then return []
  if f.fixed 2 0 42 54 ≠ f.programEntry then throw .programEntrySize
  f.table f.programStart f.programEntry count f.programHeader .programTable

def sectionCount (f : ElfFile) : Except ElfFault Nat := do
  let count := f.fixed 2 0 48 60
  if 0 < count then return count
  return ((← f.firstSection).map (·.size)).getD 0

def sections (f : ElfFile) : Except ElfFault (List SectionHeader) := do
  if f.sectionStart = 0 then return []
  let count ← f.sectionCount
  if count = 0 then return []
  if f.fixed 2 0 46 58 ≠ f.sectionEntry then throw .sectionEntrySize
  f.table f.sectionStart f.sectionEntry count f.sectionHeader .sectionTable

/-- The number of the section that holds the names of the sections. -/
def sectionNames (f : ElfFile) : Except ElfFault Nat := do
  let index := f.fixed 2 0 50 62
  let index ← if index = overflowCount then
    match ← f.firstSection with
    | some first => pure first.link
    | none => throw .sectionNamesCount
  else pure index
  if index = 0 then throw .noSectionNames
  return index

/-- A section without bytes in the file. -/
def noBits : Nat := 8

/-- Checks the section that holds the names of the sections. -/
def checkSectionNames (f : ElfFile) (table : List SectionHeader) : Except ElfFault Unit := do
  if table.isEmpty then return
  match table[← f.sectionNames]? with
  | none => throw .sectionNamesIndex
  | some names => if names.type ≠ noBits ∧ names.offset + names.size ≥ UInt64.size then throw .sectionNamesRange

/-! ## Symbols -/

/-- Types of sections. -/
def symbolTable : Nat := 2
def stringTable : Nat := 3
def dynamicSymbols : Nat := 11
def sectionIndices : Nat := 18
def relocations : List Nat := [4, 9]

/-- Symbols with the number of their section and the range of the file that holds their names. -/
structure Symbols where
  index : Nat := 0
  symbols : List ElfSymbol := []
  names : Nat × Nat := (0, 0)

/-- The symbols of the first section of a type. An incomplete entry at the end does not count. -/
def symbolsOf (f : ElfFile) (table : List SectionHeader) (type : Nat) : Except ElfFault Symbols := do
  let index := table.findIdx (·.type == type)
  match table[index]? with
  | none => return {}
  | some s =>
    if !f.holds s.offset s.size then throw .symbolTable
    match table[s.link]? with
    | none => throw .stringSectionIndex
    | some strings =>
      if strings.type ≠ stringTable then throw .stringSectionType
      if strings.offset + strings.size ≥ UInt64.size then throw .stringSectionRange
      if table.any fun t => t.type == sectionIndices && t.link == index && !f.holds t.offset t.size then
        throw .sectionIndexTable
      return {
        index
        symbols := entries s.offset f.symbolEntry (s.size / f.symbolEntry) f.symbol
        names := (strings.offset, strings.offset + strings.size) }

/-- Checks that each section of relocations for the symbols of a section is about a section of the table. -/
def checkRelocations (table : List SectionHeader) (symbols : Symbols) : Except ElfFault Unit :=
  if table.any fun t => relocations.contains t.type && t.link == symbols.index && t.info ≥ table.length then
    .error .relocationTarget
  else .ok ()

/-- The name at an offset of a range: the bytes up to the first zero, if they are text. -/
def nameAt (f : ElfFile) (names : Nat × Nat) (offset : Nat) : Option String :=
  let start := names.1 + offset
  if start ≤ names.2 ∧ names.2 ≤ f.size then
    let bytes := f.bytes.extract start names.2
    (bytes.findIdx? (· == 0)).bind fun size => String.fromUTF8? ⟨bytes.extract 0 size⟩
  else none

/-- The type of symbols that are functions. -/
def functionSymbol : Nat := 2

/-- The function of a symbol. One that wraps around the address space is left out with a line. -/
def functionOf (f : ElfFile) (names : Nat × Nat) (s : ElfSymbol) : List Line × Option FunctionRange :=
  if s.type ≠ functionSymbol ∨ s.size = 0 then ([], none)
  else if s.value.toNat + s.size.toNat < UInt64.size then
    ([], (f.nameAt names s.name).map fun name => { start := s.value, stop := s.value + s.size, name })
  else
    ([⟨.debug, .image, "skipping symbol at " ++ address s.value.toNat ++ " wrapping the address space"⟩], none)

/-! ## Loading -/

/-- How many bytes say what kind of file it is. -/
def magicSize : Nat := 16

/-- The class of a file that begins with some bytes. -/
def classOf : List UInt8 → Except ElfFault ElfClass
  | 0x7f :: 0x45 :: 0x4c :: 0x46 :: 1 :: _ => .ok .bits32
  | 0x7f :: 0x45 :: 0x4c :: 0x46 :: 2 :: _ => .ok .bits64
  | 0x21 :: 0x3c :: 0x61 :: 0x72 :: 0x63 :: 0x68 :: 0x3e :: 0x0a :: _ => .error .archive
  | 0x4d :: 0x5a :: _ => .error .otherSystem
  | _ => .error .unknownMagic

/-- The file that is the first `size` bytes, if they begin as one does. -/
def ofBytes (bytes : Array UInt8) (size : Nat) : Except ElfFault ElfFile := do
  if size < magicSize then throw .shorterThanMagic
  let magic := (bytes.extract 0 magicSize).toList
  let layout ← classOf magic
  let order := magic.getD 5 0
  let f : ElfFile := { bytes, size, layout, littleEndian := order == 1 }
  if !f.holds 0 f.headerSize then throw .header
  if (order == 1 || order == 2) && magic.getD 6 0 == 1 then return f else throw .unsupported

/-- The tables of a file, all of them checked. -/
def tables (f : ElfFile) : Except ElfFault (List ProgramHeader × Symbols) := do
  let programs ← f.programs
  let sections ← f.sections
  f.checkSectionNames sections
  let symbols ← f.symbolsOf sections symbolTable
  discard <| f.symbolsOf sections dynamicSymbols
  checkRelocations sections symbols
  return (programs, symbols)

/-- The type of segments that are loaded. -/
def loadable : Nat := 1

/-- Maps the bytes of a segment. -/
def load (f : ElfFile) (image : Image) (p : ProgramHeader) : Except ImageError Image :=
  if p.type ≠ loadable then .ok image
  else if !f.holds p.offset p.size then .error (.malformed .segmentRange)
  else if p.size = 0 then .ok image
  else image.map p.address (f.bytes.extract p.offset (p.offset + p.size))

end ElfFile

/-- The image of the ELF file that is the first `size` bytes, with the lines that loading wrote. -/
def Image.ofElf (bytes : Array UInt8) (size : Nat := bytes.size) : List Line × Except ImageError Image :=
  match ElfFile.ofBytes bytes size with
  | .error fault => ([], .error (.malformed fault))
  | .ok f =>
    match f.tables with
    | .error fault => ([], .error (.malformed fault))
    | .ok (programs, symbols) =>
      match programs.foldlM f.load {} with
      | .error e => ([], .error e)
      | .ok image =>
        let found := symbols.symbols.map (f.functionOf symbols.names)
        let image := (found.filterMap (·.2)).foldl Image.addFunction image
        (found.flatMap (·.1), if image.segments.isEmpty then .error .empty else .ok image)

end TaintReplay
