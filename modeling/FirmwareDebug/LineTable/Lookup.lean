import FirmwareDebug.LineTable.Row

/-!
# Questions to line tables

From an address to its source line, and from a source line to the addresses where its statements
begin. Both look at the same pairs of rows.
-/

namespace FirmwareDebug

/-- A header, the program behind it and the directory of the compilation. -/
structure LineTable where
  header : LineTable.Header
  bytes : Bytes
  compilationDirectory : Option String

namespace LineTable

/-- The source line of an address. -/
structure LineOfAddress where
  line : UInt32
  file : UInt32
  column : UInt32
  /-- The address is the first one of a statement. -/
  exact : Bool
  deriving DecidableEq, Repr

/-- The rows of the table, and the fault that ends them if one does. -/
def decodedRows (table : LineTable) : Except Fault (Decoded Row) := do
  let program ← table.header.instructions table.bytes
  return ⟨rowsFrom table.header (.initial table.header) program.items, program.fault⟩

def rows (table : LineTable) : Except Fault (List Row) := do (← table.decodedRows).all

/-- The pairs of rows in the table, and the fault that ends them if one does. -/
def decodedPairs (table : LineTable) : Except Fault (Decoded (Row × Row)) := do
  let rows ← table.decodedRows
  return ⟨rowPairs rows.items, rows.fault⟩

/-- Whether an address belongs to the first row of a pair. -/
def covers (pair : Row × Row) (address : UInt32) : Bool :=
  pair.1.address ≤ address && address < pair.2.address

/-- What a row says about an address that belongs to it. -/
def LineOfAddress.ofRow (row : Row) (address : UInt32) : LineOfAddress :=
  ⟨row.line, row.file, row.column, row.isStatement && row.address = address⟩

/-- The source line of an address. A fault behind the row that covers the address does no harm. -/
def lineOfAddress (table : LineTable) (address : UInt32) : Except Fault (Option LineOfAddress) := do
  let pairs ← table.decodedPairs
  match pairs.items.find? (covers · address), pairs.fault with
  | some pair, _ => return some (.ofRow pair.1 address)
  | none, none => return none
  | none, some fault => throw fault

def isAbsolute (path : String) : Bool :=
  match path.toList with
  | '/' :: _ | '\\' :: _ => true
  | c :: ':' :: _ => c.toNat < 0x80
  | _ => false

/-- The directory of a file, without the directory of the compilation where it is absolute. -/
def directoryPath (table : LineTable) (entry : FileEntry) : String :=
  match table.header.directory? entry.directory, table.compilationDirectory with
  | some directory, some base => if isAbsolute directory then directory else base ++ "/" ++ directory
  | some directory, none => directory
  | none, some base => base
  | none, none => ""

def filePath (table : LineTable) (number : UInt32) : Option String := do
  let entry ← table.header.file? number
  if isAbsolute entry.name then return entry.name
  let directory := table.directoryPath entry
  let separator := if directory.isEmpty || directory.endsWith "/" then "" else "/"
  return directory ++ separator ++ entry.name

/-- Whether a path is the given name or ends in it behind a slash. -/
def pathMatches (name path : String) : Bool := path = name || path.endsWith ("/" ++ name)

def matchingFiles (table : LineTable) (name : String) : List UInt32 :=
  table.header.fileNumbers.filter fun number => (table.filePath number).any (pathMatches name)

/-- Whether a pair of rows is a statement of the line in one of the files. -/
def begins (files : List UInt32) (line : UInt32) (pair : Row × Row) : Bool :=
  pair.1.line = line && pair.1.isStatement && pair.1.address < pair.2.address && files.contains pair.1.file

def sorted (numbers : List UInt32) : List UInt32 :=
  (numbers.mergeSort fun a b => a ≤ b).eraseReps

/-- The addresses where statements of a line of a file begin, in order. -/
def addressesOfLine (table : LineTable) (name : String) (line : UInt32) : Except Fault (List UInt32) := do
  let files := table.matchingFiles name
  if files.isEmpty then return []
  let pairs ← (← table.decodedPairs).all
  return sorted ((pairs.filter (begins files line)).map fun pair => pair.1.address)

def sourceFiles (table : LineTable) : List String := table.header.fileNumbers.filterMap table.filePath

end LineTable

end FirmwareDebug
