import FirmwareDebug.Form

/-!
# Headers of line tables

A line table tells which source line each instruction comes from. Its header gives the parameters
of the encoding and the tables of directories and files.
-/

namespace FirmwareDebug.LineTable

open Read

def region : String := ".debug_line"

/-- A file of the table and the number of its directory. -/
structure FileEntry where
  name : String
  directory : UInt64
  deriving DecidableEq, Repr

/-- What stands in front of a line program. -/
structure Header where
  offset : UInt32
  version : UInt16
  addressSize : UInt8
  minimumInstructionLength : UInt8
  maximumOperations : UInt8
  defaultIsStatement : Bool
  lineBase : Int8
  lineRange : UInt8
  opcodeBase : UInt8
  /-- How many operands each standard opcode has, from opcode 1 on. -/
  operandCounts : List UInt8
  directories : List String
  files : List FileEntry
  /-- Where the program starts. -/
  start : Nat
  /-- Where the program ends. -/
  stop : Nat
  deriving DecidableEq, Repr

/-- Sections that names in a header may be kept in. -/
structure TextSections where
  text : Bytes
  lineText : Bytes

/-- One column of the file or directory table: what it says, and the code of its form. -/
structure Column where
  content : UInt16
  form : UInt16

def readColumn : Read Column := do
  let content ← unsigned
  let form ← unsigned
  if 2 ^ 16 ≤ content.toNat then malformed .contentRange
  if 2 ^ 16 ≤ form.toNat then malformed .entryFormRange
  return ⟨content.toUInt16, form.toUInt16⟩

def readColumns : Read (List Column) := do times readColumn (← byte).toNat

def pathText (texts : TextSections) (form : UInt16) : AttributeValue → Read String
  | .text name => return name
  | .textOffset offset => liftExcept (textAt ".debug_str" texts.text offset.toNat)
  | .lineTextOffset offset => liftExcept (textAt ".debug_line_str" texts.lineText offset.toNat)
  | _ => malformed (.pathForm form)

def readEntry (encoding : Encoding) (texts : TextSections) (entry : FileEntry) :
    List Column → Read FileEntry
  | [] => return entry
  | column :: columns => do
    let value ← (Form.ofCode column.form).read encoding none
    let entry ← match column.content with
      | 1 => do pure { entry with name := ← pathText texts column.form value }
      | 2 => pure { entry with directory := value.constant?.getD 0 }
      | _ => pure entry
    readEntry encoding texts entry columns

def readTable (encoding : Encoding) (texts : TextSections) : Read (List FileEntry) := do
  let columns ← readColumns
  let count ← unsigned
  times (readEntry encoding texts ⟨"", 0⟩ columns) count.toNat

def readName : Read (Option String) := do
  let name ← text
  return if name.isEmpty then none else some name

def readFile : Read (Option FileEntry) := do
  match ← readName with
  | none => return none
  | some name =>
    let directory ← unsigned
    discard unsigned
    discard unsigned
    return some ⟨name, directory⟩

def readTables (encoding : Encoding) (texts : TextSections) : Read (List String × List FileEntry) := do
  if 5 ≤ encoding.version then
    let directories ← readTable encoding texts
    return (directories.map FileEntry.name, ← readTable encoding texts)
  else
    let directories ← untilNone readName
    return (directories, ← untilNone readFile)

/-- A header behind the length of its unit, which ends at `stop`. -/
def readFields (texts : TextSections) (offset : UInt32) (stop : Nat) : Read Header := do
  let version ← half
  if version < 2 ∨ 5 < version then throw (.unsupportedVersion version)
  let addressSize ← if 5 ≤ version then do
      let size ← byte
      discard byte
      pure size
    else pure 4
  let headerLength ← word
  let start := (← position) + headerLength.toNat
  let minimumInstructionLength ← byte
  let maximumOperations ← if 4 ≤ version then byte else pure 1
  let defaultIsStatement := (← byte) ≠ 0
  let lineBase ← signedByte
  let lineRange ← byte
  if lineRange = 0 then malformed .zeroLineRange
  let opcodeBase ← byte
  let operandCounts ← bytes (opcodeBase.toNat - 1)
  let (directories, files) ← readTables ⟨version, addressSize⟩ texts
  return { offset, version, addressSize, minimumInstructionLength, maximumOperations,
           defaultIsStatement, lineBase, lineRange, opcodeBase, operandCounts, directories, files,
           start, stop }

/-- The cursor that may read the unit behind its length, and the end of the unit. -/
def readUnit (offset : UInt32) : Read (Cursor × Nat) := do
  let length ← word
  if length = 0xffffffff then throw (.wideFormat offset.toNat)
  let stop := (← position) + length.toNat
  return (← within length.toNat, stop)

def Header.read (section' : Bytes) (texts : TextSections) (offset : UInt32) : Except Fault Header := do
  let (unit, stop) ← (readUnit offset).eval (.place region section' offset.toNat)
  (readFields texts offset stop).eval unit

namespace Header

/-- The file with a number; numbers start at one before version 5 and at zero from then on. -/
def file? (header : Header) (number : UInt32) : Option FileEntry :=
  if 5 ≤ header.version then header.files[number.toNat]?
  else if number = 0 then none else header.files[number.toNat - 1]?

/-- The directory with a number. Before version 5, zero is the directory of the compilation. -/
def directory? (header : Header) (number : UInt64) : Option String :=
  if 5 ≤ header.version then header.directories[number.toNat]?
  else if number = 0 then none else header.directories[number.toNat - 1]?

def fileNumbers (header : Header) : List UInt32 :=
  let first := if 5 ≤ header.version then 0 else 1
  (List.range header.files.length).map fun i => UInt32.ofNat (first + i)

end Header

end FirmwareDebug.LineTable
