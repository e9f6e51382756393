import FirmwareDebug.Image.Header

/-!
# The section table of an image

Reads the lines of the section table and checks what hangs on them: the segment table, the names, the
tables of symbols and the relocations. The first line stands for no section; counts that the head has
no room for are kept in it.
-/

namespace FirmwareDebug

/-- One line of the section table. -/
structure ImageSection where
  /-- The place of the name in the table of names. -/
  nameOffset : Nat
  kind : Nat
  flags : Nat
  address : Nat
  offset : Nat
  size : Nat
  /-- The index of a section that this one needs. -/
  link : Nat
  /-- For relocations, the index of the section that they change. -/
  info : Nat
  deriving DecidableEq, Repr

/-- Whether a file is long enough to have some bytes at a place. -/
def Bytes.covers (file : Bytes) (offset size : Nat) : Bool := offset + size ≤ file.size

namespace ImageSection

def read (file : Bytes) (format : ImageFormat) (offset : Nat) : ImageSection :=
  let word := format.wordSize
  { nameOffset := format.numberAt file offset 4
    kind := format.numberAt file (offset + 4) 4
    flags := format.numberAt file (offset + 8) word
    address := format.numberAt file (offset + 8 + word) word
    offset := format.numberAt file (offset + 8 + 2 * word) word
    size := format.numberAt file (offset + 8 + 3 * word) word
    link := format.numberAt file (offset + 8 + 4 * word) 4
    info := format.numberAt file (offset + 12 + 4 * word) 4 }

def hasBytes (s : ImageSection) : Bool := s.kind ≠ 8

def isText (s : ImageSection) : Bool := s.kind = 3

def isRelocation (s : ImageSection) : Bool := [4, 9, 0x40000014].contains s.kind

def hasFlag (s : ImageSection) (flag : Nat) : Bool := s.flags / flag % 2 = 1

/-- Whether the section is a part of memory with code or with data that is never written. -/
def isReadOnly (s : ImageSection) : Bool :=
  s.kind = 1 && s.hasFlag 2 && (s.hasFlag 4 || (!s.hasFlag 0x400 && !s.hasFlag 1))

def bytes? (file : Bytes) (s : ImageSection) : Option Bytes :=
  if !s.hasBytes then some #[]
  else if file.covers s.offset s.size then some (file.extract s.offset (s.offset + s.size))
  else none

/-- Whether the section is in the file and holds a whole number of lines. -/
def isTable (file : Bytes) (s : ImageSection) (lineSize : Nat) : Bool :=
  file.covers s.offset s.size && s.size % lineSize = 0

def overflows (s : ImageSection) : Bool := s.hasBytes && 2 ^ 64 ≤ s.offset + s.size

end ImageSection

namespace ImageHeader

/-- The first line of the section table. -/
def firstSection? (header : ImageHeader) (file : Bytes) : Except ImageFault (Option ImageSection) := do
  if header.sections.start = 0 then return none
  if header.sections.lineSize ≠ header.format.sectionSize then throw .sectionSize
  if !file.covers header.sections.start header.format.sectionSize then throw .firstSection
  return some (ImageSection.read file header.format header.sections.start)

def segmentCount (header : ImageHeader) (file : Bytes) : Except ImageFault Nat := do
  if header.segments.lineCount < 0xffff then return header.segments.lineCount
  match ← header.firstSection? file with
  | some first => return first.info
  | none => throw .segmentCount

def sectionCount (header : ImageHeader) (file : Bytes) : Except ImageFault Nat := do
  if header.sections.lineCount ≠ 0 then return header.sections.lineCount
  return (← header.firstSection? file).elim 0 ImageSection.size

def checkSegments (header : ImageHeader) (file : Bytes) : Except ImageFault Unit := do
  if header.segments.start = 0 then return
  let count ← header.segmentCount file
  if count = 0 then return
  if header.segments.lineSize ≠ header.format.segmentSize then throw .segmentSize
  if !file.covers header.segments.start (count * header.format.segmentSize) then throw .segmentTable

end ImageHeader

/-- All lines of the section table, and the bytes that the names are in. -/
structure SectionTable where
  lines : List ImageSection
  names : Bytes
  deriving Repr

namespace SectionTable

def readLines (file : Bytes) (header : ImageHeader) : Except ImageFault (List ImageSection) := do
  let start := header.sections.start
  if start = 0 then return []
  let count ← header.sectionCount file
  if count = 0 then return []
  let size := header.format.sectionSize
  if header.sections.lineSize ≠ size then throw .sectionSize
  if !file.covers start (count * size) then throw .sectionTable
  return (List.range count).map fun i => ImageSection.read file header.format (start + i * size)

def readNames (file : Bytes) (header : ImageHeader) : List ImageSection → Except ImageFault Bytes
  | [] => .ok #[]
  | first :: rest =>
    let index := if header.names = 0xffff then first.link else header.names
    if index = 0 then .error .noNames
    else
      match (first :: rest)[index]? with
      | none => .error .missingNames
      | some s => if s.overflows then .error .namesSize else .ok ((s.bytes? file).getD #[])

def read (file : Bytes) (header : ImageHeader) : Except ImageFault SectionTable := do
  let lines ← readLines file header
  return { lines, names := ← readNames file header lines }

/-- The name of a section: the bytes up to a zero byte. -/
def name? (table : SectionTable) (s : ImageSection) : Option (List UInt8) :=
  let name := (table.names.extract s.nameOffset table.names.size).toList
  if name.contains 0 then some (name.takeWhile (· ≠ 0)) else none

def find? (table : SectionTable) (name : String) : Option ImageSection :=
  table.lines.find? fun s => table.name? s = some name.toUTF8.toList

/-- Check the section that the names of symbols are in; an index of zero stands for none. -/
def checkSymbolNames (table : SectionTable) (index : Nat) : Except ImageFault Unit :=
  if index = 0 then .ok ()
  else
    match table.lines[index]? with
    | none => .error .missingSymbolNames
    | some s =>
      if !s.isText then .error .symbolNamesKind
      else if s.overflows then .error .symbolNamesSize
      else .ok ()

/-- Check the first table of symbols of a kind. Gives its index, or zero if there is none. -/
def checkSymbols (file : Bytes) (format : ImageFormat) (table : SectionTable) (kind : Nat) :
    Except ImageFault Nat := do
  match table.lines.zipIdx.find? fun (s, _) => s.kind = kind with
  | none => return 0
  | some (symbols, index) =>
    if !symbols.isTable file format.symbolSize then throw .symbolTable
    table.checkSymbolNames symbols.link
    let sectionsOf := table.lines.filter fun s => s.kind = 18 ∧ s.link = index
    if sectionsOf.any fun s => !s.isTable file 4 then throw .symbolSections
    return index

/-- Check the relocations that go with a table of symbols, from the last to the first. -/
def checkRelocations (table : SectionTable) (symbols : Nat) : Except ImageFault Unit :=
  (table.lines.reverse.filter fun s => s.isRelocation ∧ s.link = symbols ∧ s.info ≠ 0).forM fun s =>
    match table.lines[s.info]? with
    | none => .error .relocatedSection
    | some relocated => if relocated.isRelocation then .error .relocatedRelocations else .ok ()

def check (file : Bytes) (format : ImageFormat) (table : SectionTable) : Except ImageFault Unit := do
  let symbols ← checkSymbols file format table 2
  let _ ← checkSymbols file format table 11
  table.checkRelocations symbols

end SectionTable

end FirmwareDebug
