import TaintReplay.Text.Hex

/-!
# Why an image could not be built

An `ElfFault` is what is wrong with an object file, an `ImageError` why no image could be built from it or from raw
bytes. Each has one text.
-/

namespace TaintReplay

inductive ElfFault where
  | shorterThanMagic
  | archive
  | otherSystem
  | unknownMagic
  | header
  | unsupported
  | programEntrySize
  | programTable
  | programCount
  | sectionEntrySize
  | firstSection
  | sectionTable
  | noSectionNames
  | sectionNamesIndex
  | sectionNamesCount
  | sectionNamesRange
  | symbolTable
  | stringSectionIndex
  | stringSectionType
  | stringSectionRange
  | sectionIndexTable
  | relocationTarget
  | segmentRange
  deriving DecidableEq, Repr

def ElfFault.message : ElfFault → String
  | shorterThanMagic => "Could not read file magic"
  | archive => "Unsupported file format"
  | otherSystem => "Unknown MS-DOS file"
  | unknownMagic => "Unknown file magic"
  | header => "Invalid ELF header size or alignment"
  | unsupported => "Unsupported ELF header"
  | programEntrySize => "Invalid ELF program header entry size"
  | programTable => "Invalid ELF program header size or alignment"
  | programCount => "Missing ELF section headers for e_phnum overflow"
  | sectionEntrySize => "Invalid ELF section header entry size"
  | firstSection => "Invalid ELF section header offset or size"
  | sectionTable => "Invalid ELF section header offset/size/alignment"
  | noSectionNames => "Missing ELF e_shstrndx"
  | sectionNamesIndex => "Invalid ELF e_shstrndx"
  | sectionNamesCount => "Missing ELF section headers for e_shstrndx overflow"
  | sectionNamesRange => "Invalid ELF shstrtab size"
  | symbolTable => "Invalid ELF symbol table data"
  | stringSectionIndex => "Invalid ELF section index"
  | stringSectionType => "Invalid ELF string section type"
  | stringSectionRange => "Invalid ELF string section offset or size"
  | sectionIndexTable => "Invalid ELF symtab_shndx data"
  | relocationTarget => "Invalid ELF sh_info for relocation section"
  | segmentRange => "Invalid ELF segment size or offset"

inductive ImageError where
  /-- The bytes reach beyond the end of the address space. -/
  | wraps (start : UInt64) (size : Nat)
  /-- There is nothing to load. -/
  | empty
  | malformed (fault : ElfFault)
  deriving DecidableEq, Repr

def ImageError.message : ImageError → String
  | wraps start size => Text.address size ++ " bytes at " ++ Text.address start.toNat ++ " wrap the address space"
  | empty => "image has no loadable segments"
  | malformed fault => fault.message

end TaintReplay
