import FirmwareDebug.Unit.Resolve

/-!
# Summaries of units

What the root entry says about its unit. The bases are read before everything else, so that the
order of the root's attributes does not matter to values that depend on them.
-/

namespace FirmwareDebug

/-- A unit: its header and what its root says. -/
structure UnitSummary where
  header : UnitHeader
  /-- The tag of the root. -/
  tag : Tag
  name : Option String := none
  compilationDirectory : Option String := none
  producer : Option String := none
  language : Option UInt16 := none
  statementList : Option UInt32 := none
  bases : UnitBases
  ranges : AddressRange := []
  deriving DecidableEq

namespace UnitSummary

def isTypeUnit (unit : UnitSummary) : Bool := unit.header.signature.isSome

def initialBases (header : UnitHeader) : UnitBases := ⟨header.version, header.addressSize, none, none, none, none, none⟩

def addBase (bases : UnitBases) (a : Attribute) : UnitBases :=
  let offset := a.value.sectionOffset?
  if a.name = .textOffsetsBase then { bases with textOffsets := offset }
  else if a.name = .addressBase ∨ a.name = .gnuAddressBase then
    { bases with addresses := offset }
  else if a.name = .rangeListsBase then { bases with rangeLists := offset }
  else if a.name = .locationListsBase then { bases with locationLists := offset }
  else bases

/-- The unit so far, and the attributes that give its addresses. -/
structure Draft where
  unit : UnitSummary
  low : Option UInt32 := none
  high : Option AttributeValue := none
  ranges : Option AttributeValue := none

def Draft.add (sections : Sections) (bases : UnitBases) (draft : Draft) (a : Attribute) :
    Except Fault Draft := do
  let unit := draft.unit
  let value := a.value
  if a.name = .name then
    return { draft with unit := { unit with name := ← sections.textOf bases value } }
  else if a.name = .compilationDirectory then
    return { draft with unit := { unit with compilationDirectory := ← sections.textOf bases value } }
  else if a.name = .producer then
    return { draft with unit := { unit with producer := ← sections.textOf bases value } }
  else if a.name = .language then
    let language := (value.constant?.filter fun code => code.toNat < 2 ^ 16).map UInt64.toUInt16
    return { draft with unit := { unit with language } }
  else if a.name = .statementList then
    return { draft with unit := { unit with statementList := value.sectionOffset? } }
  else if a.name = .lowPc then return { draft with low := ← sections.addressOf bases value }
  else if a.name = .highPc then return { draft with high := some value }
  else if a.name = .ranges then return { draft with ranges := some value }
  else return draft

/-- The addresses of a unit. A list of ranges goes before a first address and an end. -/
def Draft.addresses (sections : Sections) (bases : UnitBases) (draft : Draft) : Except Fault AddressRange :=
  match draft.ranges, draft.low, draft.high with
  | some value, _, _ => sections.rangesOf bases value
  | none, some low, some high => sections.boundsOf bases low high
  | none, _, _ => .ok []

/-- The unit behind a header. A unit without entries has no more than its header. -/
def build (index : EntryIndex) (header : UnitHeader) : Except Fault UnitSummary := do
  let bases := initialBases header
  let unit : UnitSummary := { header, tag := .null, bases }
  if header.stop ≤ header.firstEntry then return unit
  match index.locate header.firstEntry with
  | .error _ => return unit
  | .ok (_, abbreviation) =>
    let attributes ← index.attributesWith header.encoding header.firstEntry
    let bases := attributes.foldl addBase bases
    let draft ← attributes.foldlM (Draft.add index.sections bases)
      { unit := { unit with tag := abbreviation.tag } }
    let bases := { bases with baseAddress := draft.low }
    return { draft.unit with bases, ranges := ← draft.addresses index.sections bases }

end UnitSummary

end FirmwareDebug
