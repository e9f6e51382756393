import FirmwareDebug.EntryIndex

/-!
# What offsets and indices stand for

Strings, addresses and lists may be given by an index into the unit's part of a table. Where that
part starts is told by attributes of the unit's root, which `UnitBases` keeps.
-/

namespace FirmwareDebug

/-- Where the parts of shared tables that belong to a unit start. -/
structure UnitBases where
  version : UInt16
  addressSize : UInt8
  /-- The address that old lists count from. -/
  baseAddress : Option UInt32 := none
  textOffsets : Option UInt32 := none
  addresses : Option UInt32 := none
  rangeLists : Option UInt32 := none
  locationLists : Option UInt32 := none
  deriving DecidableEq, Repr

namespace Sections

def textOf (sections : Sections) (bases : UnitBases) : AttributeValue → Except Fault (Option String)
  | .text text => .ok (some text)
  | .textOffset offset => some <$> textAt ".debug_str" sections.text offset.toNat
  | .lineTextOffset offset => some <$> textAt ".debug_line_str" sections.lineText offset.toNat
  | .textIndex index => do
    let place := index.toNat * 4 + (bases.textOffsets.getD 0).toNat
    if 2 ^ 64 ≤ place then throw (.malformed ".debug_str_offsets" 0 .stringIndex)
    let offset ← Read.word.eval (.place ".debug_str_offsets" sections.textOffsets place)
    some <$> textAt ".debug_str" sections.text offset.toNat
  | _ => .ok none

def addressAt (sections : Sections) (bases : UnitBases) (index : UInt64) : Except Fault UInt32 := do
  let place := index.toNat * bases.addressSize.toNat + (bases.addresses.getD 0).toNat
  if 2 ^ 64 ≤ place then throw (.malformed ".debug_addr" 0 (.addressIndex index))
  (Read.address bases.addressSize).eval (.place ".debug_addr" sections.addresses place)

def addressOf (sections : Sections) (bases : UnitBases) : AttributeValue → Except Fault (Option UInt32)
  | .address address => .ok (some address)
  | .addressIndex index => some <$> sections.addressAt bases index
  | _ => .ok none

/-- The addresses from `low` on, up to an address or for a length. -/
def boundsOf (sections : Sections) (bases : UnitBases) (low : UInt32) (high : AttributeValue) :
    Except Fault AddressRange := do
  match ← sections.addressOf bases high, high.constant? with
  | some address, _ => return .ofBounds low address
  | none, some length => return .ofBounds low (low + length.toUInt32)
  | none, none => return []

/-- The place of a list by its number; without a base, the first list table of the section is meant. -/
def listOffset (region : String) (bytes : Bytes) (base : Option UInt32) (index : UInt64) :
    Except Fault UInt32 := do
  let base := base.getD 12
  let place := index.toNat * 4 + base.toNat
  if 2 ^ 64 ≤ place then throw (.malformed region base.toNat (.listIndex index))
  return base + (← Read.word.eval (.place region bytes place))

def rangesOf (sections : Sections) (bases : UnitBases) (value : AttributeValue) :
    Except Fault AddressRange := do
  let base := bases.baseAddress.getD 0
  match value, value.sectionOffset? with
  | .rangeListIndex index, _ =>
    let offset ← listOffset RangeList.region sections.rangeLists bases.rangeLists index
    RangeList.read sections.rangeLists offset base (sections.addressAt bases)
  | _, none => return []
  | _, some offset =>
    if 5 ≤ bases.version then RangeList.read sections.rangeLists offset base (sections.addressAt bases)
    else RangeList.readOld sections.ranges offset base

/-- The expressions of a location, each with its addresses; a single expression holds everywhere. -/
def locationsOf (sections : Sections) (bases : UnitBases) (value : AttributeValue) :
    Except Fault (List LocatedExpression) := do
  let base := bases.baseAddress.getD 0
  match value.block?, value, value.sectionOffset? with
  | some expression, _, _ => return [⟨none, expression⟩]
  | none, .locationListIndex index, _ =>
    let offset ← listOffset LocationList.region sections.locationLists bases.locationLists index
    LocationList.read sections.locationLists offset base (sections.addressAt bases)
  | none, _, none => return []
  | none, _, some offset =>
    if 5 ≤ bases.version then
      LocationList.read sections.locationLists offset base (sections.addressAt bases)
    else LocationList.readOld sections.locations offset base

def expressionAt (sections : Sections) (bases : UnitBases) (value : AttributeValue) (pc : UInt32) :
    Except Fault (Option (List UInt8)) := do
  return LocationList.select pc (← sections.locationsOf bases value)

end Sections

end FirmwareDebug
