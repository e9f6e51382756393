import FirmwareDebug.EntryIndex
import FirmwareDebug.Image.SectionTable

/-!
# Program images

Finds the sections of a program in an ELF file: those with debug information, and those with the
parts of memory that never change. Only files for 32-bit targets can be read, but what is wrong with
the tables of another file is told first.
-/

namespace FirmwareDebug

/-- The debug information of a program and the parts of its memory that never change. -/
structure Image where
  sections : Sections
  readOnly : List (UInt32 × Bytes)

namespace Image

def bytesOf (file : Bytes) (name : String) (s : ImageSection) : Except ImageFault Bytes :=
  match s.bytes? file with
  | some bytes => .ok bytes
  | none => .error (.contents name)

/-- The bytes of the first section with a name; a section that is not there is empty. -/
def sectionNamed (file : Bytes) (table : SectionTable) (name : String) : Except ImageFault Bytes :=
  match table.find? name with
  | some s => bytesOf file name s
  | none => .ok #[]

def debugSections (named : String → Except ImageFault Bytes) : Except ImageFault Sections := do
  return {
    info := ← named ".debug_info"
    types := ← named ".debug_types"
    abbreviations := ← named ".debug_abbrev"
    text := ← named ".debug_str"
    textOffsets := ← named ".debug_str_offsets"
    line := ← named ".debug_line"
    lineText := ← named ".debug_line_str"
    addresses := ← named ".debug_addr"
    ranges := ← named ".debug_ranges"
    rangeLists := ← named ".debug_rnglists"
    locations := ← named ".debug_loc"
    locationLists := ← named ".debug_loclists"
    frame := ← named ".debug_frame" }

def displayName (table : SectionTable) (s : ImageSection) : String :=
  ((table.name? s).bind fun name => String.fromUTF8? ⟨name.toArray⟩).getD "<unnamed>"

def readOnlyParts (file : Bytes) (table : SectionTable) : Except ImageFault (List (UInt32 × Bytes)) := do
  let parts ← (table.lines.tail.filter ImageSection.isReadOnly).mapM fun s => do
    return (UInt32.ofNat s.address, ← bytesOf file (displayName table s) s)
  return parts.filter fun part => part.2.size ≠ 0

def read (file : Bytes) : Except ImageFault Image := do
  let header ← ImageHeader.read file
  header.checkSegments file
  let table ← SectionTable.read file header
  table.check file header.format
  if header.format.wide then throw .wide
  let sections ← debugSections (sectionNamed file table)
  return ⟨sections, ← readOnlyParts file table⟩

end Image

end FirmwareDebug
