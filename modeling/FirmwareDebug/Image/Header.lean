import FirmwareDebug.Bytes

/-!
# The head of an image

An image is an ELF file. Its first bytes say how wide its numbers are and which byte of them comes
first, and where its two tables are: one has a line for each segment of memory, the other a line for
each section.
-/

namespace FirmwareDebug

/-- Why a file is not an image that can be read. -/
inductive ImageFault
  | tooShort
  | unknownMagic
  /-- A file of a kind that is known, but no image. -/
  | otherKind
  /-- A program of a kind that is not known. -/
  | unknownProgram
  /-- An object file of a kind that is not known. -/
  | unknownObject
  | shortHeader
  | unsupportedHeader
  /-- The lines of the segment table have another size than they should. -/
  | segmentSize
  | segmentTable
  /-- The number of segments is kept in a section table that is not there. -/
  | segmentCount
  /-- The lines of the section table have another size than they should. -/
  | sectionSize
  | firstSection
  | sectionTable
  /-- No section holds the names. -/
  | noNames
  /-- The section that holds the names is not there. -/
  | missingNames
  | namesSize
  | symbolTable
  /-- The section that holds the names of symbols is not there. -/
  | missingSymbolNames
  | symbolNamesKind
  | symbolNamesSize
  /-- The table with the sections of symbols is cut short. -/
  | symbolSections
  /-- Relocations of a section that is not there. -/
  | relocatedSection
  /-- Relocations of relocations. -/
  | relocatedRelocations
  /-- A section lies outside the file. -/
  | contents (name : String)
  /-- A file for 64-bit targets. -/
  | wide
  deriving DecidableEq, Repr

def ImageFault.message (path : String) : ImageFault → String
  | tooShort => parsing "Could not read file magic"
  | unknownMagic => parsing "Unknown file magic"
  | otherKind => parsing "Unsupported file format"
  | unknownProgram => parsing "Unknown MS-DOS file"
  | unknownObject => parsing "Unknown anon object file"
  | shortHeader => parsing "Invalid ELF header size or alignment"
  | unsupportedHeader => parsing "Unsupported ELF header"
  | segmentSize => parsing "Invalid ELF program header entry size"
  | segmentTable => parsing "Invalid ELF program header size or alignment"
  | segmentCount => parsing "Missing ELF section headers for e_phnum overflow"
  | sectionSize => parsing "Invalid ELF section header entry size"
  | firstSection => parsing "Invalid ELF section header offset or size"
  | sectionTable => parsing "Invalid ELF section header offset/size/alignment"
  | noNames => parsing "Missing ELF e_shstrndx"
  | missingNames => parsing "Invalid ELF e_shstrndx"
  | namesSize => parsing "Invalid ELF shstrtab size"
  | symbolTable => parsing "Invalid ELF symbol table data"
  | missingSymbolNames => parsing "Invalid ELF section index"
  | symbolNamesKind => parsing "Invalid ELF string section type"
  | symbolNamesSize => parsing "Invalid ELF string section offset or size"
  | symbolSections => parsing "Invalid ELF symtab_shndx data"
  | relocatedSection => parsing "Invalid ELF sh_info for relocation section"
  | relocatedRelocations => parsing "Unsupported ELF sh_info for relocation section"
  | contents name => "Failed to read section " ++ name ++ ": Invalid compressed data size or offset"
  | wide => path ++ " is a 64-bit image, only 32-bit targets are supported"
where
  /-- The wording of a file that is no image. -/
  parsing (text : String) : String := "Failed to parse " ++ path ++ ": " ++ text

/-- How numbers are written in an image. -/
structure ImageFormat where
  /-- Whether places and sizes have 64 bits. -/
  wide : Bool
  /-- Whether the most significant byte comes first. -/
  bigEndian : Bool
  deriving DecidableEq, Repr

namespace ImageFormat

def wordSize (format : ImageFormat) : Nat := if format.wide then 8 else 4

def headerSize (format : ImageFormat) : Nat := if format.wide then 64 else 52

def segmentSize (format : ImageFormat) : Nat := if format.wide then 56 else 32

def sectionSize (format : ImageFormat) : Nat := if format.wide then 64 else 40

def symbolSize (format : ImageFormat) : Nat := if format.wide then 24 else 16

def numberAt (format : ImageFormat) (file : Bytes) (offset size : Nat) : Nat :=
  let bytes := (file.extract offset (offset + size)).toList
  littleEndian (if format.bigEndian then bytes.reverse else bytes)

end ImageFormat

/-- Where a table of an image starts, and the size and the number of its lines. -/
structure ImageTable where
  start : Nat
  lineSize : Nat
  lineCount : Nat
  deriving DecidableEq, Repr

/-- The head of an image. -/
structure ImageHeader where
  format : ImageFormat
  segments : ImageTable
  sections : ImageTable
  /-- The index of the section that holds the names. -/
  names : Nat
  deriving DecidableEq, Repr

namespace ImageHeader

/-- What files of other kinds start with, and the fault that they are. -/
def otherKinds : List (List UInt8 × ImageFault) :=
  [("!<arch>\n".toUTF8.toList, .otherKind), ("!<thin>\n".toUTF8.toList, .otherKind),
    ("dyld_v1 ".toUTF8.toList, .otherKind), ([0xca, 0xfe, 0xba, 0xbe], .otherKind),
    ([0xca, 0xfe, 0xba, 0xbf], .otherKind), ([0, 0, 0xff, 0xff, 0, 0], .otherKind),
    ("MZ".toUTF8.toList, .unknownProgram), ([0, 0, 0xff, 0xff, 2, 0], .unknownObject)]

def faultOfKind (start : List UInt8) : ImageFault :=
  match otherKinds.find? fun kind => kind.1.isPrefixOf start with
  | some (_, fault) => fault
  | none => .unknownMagic

def isWide (file : Bytes) : Except ImageFault Bool :=
  if file.size < 16 then .error .tooShort
  else
    match (file.extract 0 5).toList with
    | [0x7f, 0x45, 0x4c, 0x46, 1] => .ok false
    | [0x7f, 0x45, 0x4c, 0x46, 2] => .ok true
    | _ => .error (faultOfKind (file.extract 0 8).toList)

def read (file : Bytes) : Except ImageFault ImageHeader := do
  let format : ImageFormat := ⟨← isWide file, file[5]? = some 2⟩
  if file.size < format.headerSize then throw .shortHeader
  if (file[5]? ≠ some 1 ∧ !format.bigEndian) ∨ file[6]? ≠ some 1 then throw .unsupportedHeader
  let word := format.wordSize
  let half (i : Nat) : Nat := format.numberAt file (format.headerSize - 10 + 2 * i) 2
  return {
    format
    segments := ⟨format.numberAt file (24 + word) word, half 0, half 1⟩
    sections := ⟨format.numberAt file (24 + 2 * word) word, half 2, half 3⟩
    names := half 4 }

end ImageHeader

end FirmwareDebug
