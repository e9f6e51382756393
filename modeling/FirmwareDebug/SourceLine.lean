import FirmwareDebug.LineTable.Lookup
import FirmwareDebug.Origin

/-! # Source lines of addresses and declarations -/

namespace FirmwareDebug

/-- A place in a source file. -/
structure SourceLine where
  file : String
  line : UInt32
  column : UInt32
  /-- The place is the first address of a statement. -/
  exact : Bool
  deriving DecidableEq, Repr

namespace DebugInfo

def lineTable (info : DebugInfo) (unit : UnitSummary) : Except Fault (Option LineTable) := do
  match unit.statementList with
  | none => return none
  | some offset =>
    let header ← LineTable.Header.read info.sections.line ⟨info.sections.text, info.sections.lineText⟩ offset
    return some ⟨header, info.sections.line, unit.compilationDirectory⟩

def pathOrUnknown (table : LineTable) (file : UInt32) : String := (table.filePath file).getD "??"

def sourceLineIn (info : DebugInfo) (unit : UnitSummary) (address : UInt32) :
    Except Fault (Option SourceLine) := do
  match ← info.lineTable unit with
  | none => return none
  | some table =>
    return (← table.lineOfAddress address).map fun found =>
      ⟨pathOrUnknown table found.file, found.line, found.column, found.exact⟩

def sourceLineOf (info : DebugInfo) (address : UInt32) : Query (Option SourceLine) := do
  match ← info.unitCovering address with
  | none => return none
  | some unit => liftExcept (info.sourceLineIn unit address)

def declarationOf (info : DebugInfo) (offset : UInt32) : Except Fault (Option SourceLine) := do
  let file ← info.originConstant offset .declarationFile
  let line ← info.originConstant offset .declarationLine
  match file, line with
  | some file, some line =>
    let column := (← info.originConstant offset .declarationColumn).getD 0
    let table ← info.lineTable (← info.unitAt offset)
    return table.map fun table =>
      ⟨pathOrUnknown table file.toUInt32, line.toUInt32, column.toUInt32, false⟩
  | _, _ => return none

def fromLineTables {α : Type} (info : DebugInfo) (f : LineTable → Except Fault (List α)) :
    Except Fault (List α) := do
  let found ← info.units.toList.mapM fun unit => do
    match ← info.lineTable unit with
    | none => return []
    | some table => f table
  return found.flatten

/-- The addresses where statements of a line of a file begin, in all units. -/
def addressesOfLine (info : DebugInfo) (file : String) (line : UInt32) : Except Fault (List UInt32) := do
  return LineTable.sorted (← info.fromLineTables fun table => table.addressesOfLine file line)

/-- The paths of all source files, in order and without repetition. -/
def sourceFiles (info : DebugInfo) : Except Fault (List String) := do
  let files ← info.fromLineTables fun table => .ok table.sourceFiles
  return (files.mergeSort fun a b => a ≤ b).eraseReps

end DebugInfo

end FirmwareDebug
