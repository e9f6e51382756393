import FirmwareDebug.Codes
import FirmwareDebug.LocationList
import FirmwareDebug.SortedSearch
import FirmwareDebug.Unit.Header

/-!
# The index of entries

Entries are written one after the other: an entry with children is followed by them and by a null
entry. The index holds the place and the abbreviation of each, in order, so that any entry is found
by its offset and trees are read without decoding attributes.
-/

namespace FirmwareDebug

open Read

/-- The sections that debug information is kept in. -/
structure Sections where
  info : Bytes := #[]
  types : Bytes := #[]
  abbreviations : Bytes := #[]
  text : Bytes := #[]
  textOffsets : Bytes := #[]
  line : Bytes := #[]
  lineText : Bytes := #[]
  addresses : Bytes := #[]
  ranges : Bytes := #[]
  rangeLists : Bytes := #[]
  locations : Bytes := #[]
  locationLists : Bytes := #[]
  frame : Bytes := #[]

/-- The place of an entry and its abbreviation; a null entry has none. -/
structure IndexedEntry where
  offset : UInt32
  abbreviation : Option Abbreviation
  deriving DecidableEq, Repr

/-- One attribute of an entry. -/
structure Attribute where
  name : AttributeName
  value : AttributeValue
  deriving DecidableEq, Repr

/-- The sections and the entries in them. -/
structure EntryIndex where
  sections : Sections
  entries : Array IndexedEntry

def skipValues (encoding : Encoding) : List AttributeSpec → Read Unit
  | [] => return
  | spec :: specs => do
    spec.form.skip encoding
    skipValues encoding specs

def readIndexed (table : AbbreviationTable) (encoding : Encoding) (bias : UInt32) : Read IndexedEntry := do
  let offset := UInt32.ofNat (← position) + bias
  let code ← unsigned
  if code = 0 then return ⟨offset, none⟩
  let abbreviation ← liftExcept (table.find code)
  skipValues encoding abbreviation.attributes
  return ⟨offset, some abbreviation⟩

namespace Sections

/-- The name of the section that holds a unit, its bytes and what its offsets are raised by. -/
def unitSection (sections : Sections) (inTypes : Bool) : String × Bytes × UInt32 :=
  if inTypes then (".debug_types", sections.types, UInt32.ofNat sections.info.size)
  else (".debug_info", sections.info, 0)

def cursorAt (sections : Sections) (offset : UInt32) : Cursor :=
  if offset.toNat < sections.info.size then .place ".debug_info" sections.info offset.toNat
  else .place ".debug_types" sections.types (offset.toNat - sections.info.size)

def unitHeaders (sections : Sections) : Except Fault (List UnitHeader) := do
  if 2 ^ 32 ≤ sections.info.size then throw (.malformed ".debug_info" 0 .sectionTooLarge)
  let info ← UnitHeader.readAll ".debug_info" sections.info 0 false
  let types ← UnitHeader.readAll ".debug_types" sections.types (UInt32.ofNat sections.info.size) true
  return info ++ types

def tablesOf (sections : Sections) (known : List AbbreviationTable) :
    List UnitHeader → Except Fault (List AbbreviationTable)
  | [] => .ok known
  | header :: rest => do
    if known.any fun table => table.offset = header.abbreviations then tablesOf sections known rest
    else
      let table ← AbbreviationTable.read sections.abbreviations header.abbreviations
      tablesOf sections (known ++ [table]) rest

def entriesOfUnit (sections : Sections) (tables : List AbbreviationTable) (header : UnitHeader) :
    Except Fault (List IndexedEntry) := do
  let (region, bytes, bias) := sections.unitSection header.inTypes
  let start := (header.firstEntry - bias).toNat
  let stop := (header.stop - bias).toNat
  let unit ← (within (stop - start)).eval (.place region bytes start)
  match tables.find? fun table => table.offset = header.abbreviations with
  | some table => (Decoded.ofCursor (readIndexed table header.encoding bias) unit).all
  | none => throw (.abbreviationNotFound 0 header.abbreviations)

def entriesOf (sections : Sections) (tables : List AbbreviationTable) :
    List UnitHeader → Except Fault (List IndexedEntry)
  | [] => .ok []
  | header :: rest => do
    let entries ← sections.entriesOfUnit tables header
    return entries ++ (← sections.entriesOf tables rest)

end Sections

namespace EntryIndex

def build (sections : Sections) (headers : List UnitHeader) : Except Fault EntryIndex := do
  let tables ← sections.tablesOf [] headers
  return ⟨sections, (← sections.entriesOf tables headers).toArray⟩

/-- The place in the index of the entry at an offset, null entries included. -/
def position? (index : EntryIndex) (offset : UInt32) : Option Nat :=
  searchKey index.entries IndexedEntry.offset offset

/-- The place in the index of an entry, and its abbreviation. -/
def locate (index : EntryIndex) (offset : UInt32) : Except Fault (Nat × Abbreviation) :=
  match index.position? offset with
  | none => .error (.notAnEntry offset)
  | some i =>
    match index.entries[i]?.bind IndexedEntry.abbreviation with
    | some abbreviation => .ok (i, abbreviation)
    | none => .error (.notAnEntry offset)

def abbreviation (index : EntryIndex) (offset : UInt32) : Except Fault Abbreviation := do
  return (← index.locate offset).2

def readValues (encoding : Encoding) : List AttributeSpec → Read (List Attribute)
  | [] => return []
  | spec :: specs => do
    let value ← spec.form.read encoding spec.implicit
    return ⟨spec.name, value⟩ :: (← readValues encoding specs)

/-- The value of the first attribute with a name; what comes before it is passed over. -/
def readNamed (encoding : Encoding) (name : AttributeName) :
    List AttributeSpec → Read (Option AttributeValue)
  | [] => return none
  | spec :: specs => do
    if spec.name = name then return some (← spec.form.read encoding spec.implicit)
    spec.form.skip encoding
    readNamed encoding name specs

def readAt {α : Type} (index : EntryIndex) (offset : UInt32) (values : Read α) : Except Fault α :=
  (do discard unsigned; values : Read α).eval (index.sections.cursorAt offset)

def attributesWith (index : EntryIndex) (encoding : Encoding) (offset : UInt32) :
    Except Fault (List Attribute) := do
  let abbreviation ← index.abbreviation offset
  index.readAt offset (readValues encoding abbreviation.attributes)

def withTag (index : EntryIndex) (tag : Tag) : List UInt32 :=
  (index.entries.toList.filter fun e => e.abbreviation.any fun a => a.tag = tag).map IndexedEntry.offset

end EntryIndex

end FirmwareDebug
