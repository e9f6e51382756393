import FirmwareDebug.CallFrame.Program
import FirmwareDebug.Unit.Summary

/-!
# Debug information

Everything that is known about one image: its entries, its units and its call frames. Attributes are
decoded only when they are asked for.

A question about an address or an offset starts with the unit that was found last, so the answers to
such questions are steps that keep the number of that unit. No two units hold the same offset, so
answers about offsets need no memory elsewhere.
-/

namespace FirmwareDebug

/-- The debug information of one image. -/
structure DebugInfo extends EntryIndex where
  units : Array UnitSummary
  /-- The offsets of the types that signatures stand for, the last unit first. -/
  signatures : List (UInt64 × UInt32)
  frames : CallFrame.Table

/-- A question about an address; it remembers the unit that was found last. -/
abbrev Query (α : Type) := EStateM Fault (Option Nat) α

namespace DebugInfo

def signatureOf (unit : UnitSummary) : Option (UInt64 × UInt32) := do
  return (← unit.header.signature, unit.header.offset + (← unit.header.typeOffset))

def build (sections : Sections) : Except Fault DebugInfo := do
  let headers ← sections.unitHeaders
  let index ← EntryIndex.build sections headers
  let frames ← CallFrame.Table.read sections.frame
  let units ← headers.mapM (UnitSummary.build index)
  return { index with units := units.toArray, signatures := (units.filterMap signatureOf).reverse, frames }

/-! ## Units -/

def unitContains (info : DebugInfo) (offset : UInt32) (number : Nat) : Bool :=
  info.units[number]?.any (·.header.contains offset)

def searchUnit (info : DebugInfo) (offset : UInt32) : Option Nat :=
  let count := partitionPoint info.units fun unit => unit.header.offset ≤ offset
  if count = 0 then none
  else if info.unitContains offset (count - 1) then some (count - 1) else none

/-- The number of the unit that an offset lies in: the unit that was found last is tried first. -/
def unitNumberNear (info : DebugInfo) (offset : UInt32) : StateM (Option Nat) (Option Nat) := do
  let recent ← get
  if recent.any (info.unitContains offset) then return recent
  let found := info.searchUnit offset
  if found.isSome then set found
  return found

-- A state over the identity maps its results as any monad does, also where the identity is a functor
-- in its own right.
attribute [instance (high)] Applicative.toFunctor

/-- The number of the unit that an offset lies in, when no unit was found before. -/
def unitNumberAt (info : DebugInfo) (offset : UInt32) : Option Nat :=
  ((info.unitNumberNear offset).run' none).run

def unitAt (info : DebugInfo) (offset : UInt32) : Except Fault UnitSummary :=
  match (info.unitNumberAt offset).bind (info.units[·]?) with
  | some unit => .ok unit
  | none => .error (.notAnEntry offset)

def unitWithHeader (info : DebugInfo) (offset : UInt32) : Option UnitSummary :=
  (searchKey info.units (·.header.offset) offset).bind (info.units[·]?)

def unitCovers (info : DebugInfo) (address : UInt32) (number : Nat) : Bool :=
  info.units[number]?.any (·.ranges.contains address)

def firstUnitCovering (info : DebugInfo) (address : UInt32) : Option Nat :=
  info.units.findIdx? fun unit => !unit.isTypeUnit && unit.ranges.contains address

/--
The number of the unit that covers an address: the unit that was found last if it does, or else the
first one.
-/
def unitNumberCovering (info : DebugInfo) (address : UInt32) : Query (Option Nat) := do
  let recent ← get
  if recent.any (info.unitCovers address) then return recent
  let found := info.firstUnitCovering address
  if found.isSome then set found
  return found

def unitCovering (info : DebugInfo) (address : UInt32) : Query (Option UnitSummary) := do
  return (← info.unitNumberCovering address).bind (info.units[·]?)

/-! ## Attributes -/

def attributes (info : DebugInfo) (offset : UInt32) : Except Fault (List Attribute) := do
  let unit ← info.unitAt offset
  info.attributesWith unit.header.encoding offset

def attribute? (info : DebugInfo) (offset : UInt32) (name : AttributeName) :
    Except Fault (Option AttributeValue) := do
  let abbreviation ← info.abbreviation offset
  if !abbreviation.has name then return none
  let unit ← info.unitAt offset
  info.readAt offset (EntryIndex.readNamed unit.header.encoding name abbreviation.attributes)

def typeOfSignature (info : DebugInfo) (signature : UInt64) : Option UInt32 :=
  info.signatures.lookup signature

/-- The entry that a value refers to, for a unit whose header is at `unit`. -/
def referent (info : DebugInfo) (unit : UInt32) : AttributeValue → Option UInt32
  | .typeSignature signature => info.typeOfSignature signature
  | value => value.reference? unit

def reference? (info : DebugInfo) (offset : UInt32) (name : AttributeName) :
    Except Fault (Option UInt32) := do
  match ← info.attribute? offset name with
  | none => return none
  | some value => return info.referent (← info.unitAt offset).header.offset value

def constant? (info : DebugInfo) (offset : UInt32) (name : AttributeName) :
    Except Fault (Option UInt64) := do
  return (← info.attribute? offset name).bind AttributeValue.constant?

def flag (info : DebugInfo) (offset : UInt32) (name : AttributeName) : Except Fault Bool := do
  return ((← info.attribute? offset name).bind AttributeValue.flag?).getD false

def text? (info : DebugInfo) (offset : UInt32) (name : AttributeName) : Except Fault (Option String) := do
  match ← info.attribute? offset name with
  | none => return none
  | some value => info.sections.textOf (← info.unitAt offset).bases value

/--
The addresses that the rest of an entry's attributes give it, after a first address and an end that
may have come before. An entry with a first address only covers just that.
-/
def addressesFrom (info : DebugInfo) (bases : UnitBases) (low : Option UInt32)
    (high : Option AttributeValue) : List Attribute → Except Fault AddressRange
  | [] =>
    match low, high with
    | some low, some high => info.sections.boundsOf bases low high
    | some low, none => .ok (.ofBounds low (low + 1))
    | none, _ => .ok []
  | a :: rest => do
    if a.name = .ranges then info.sections.rangesOf bases a.value
    else if a.name = .lowPc then info.addressesFrom bases (← info.sections.addressOf bases a.value) high rest
    else if a.name = .highPc then info.addressesFrom bases low (some a.value) rest
    else info.addressesFrom bases low high rest

/-- The addresses that an entry covers. -/
def addressesOf (info : DebugInfo) (offset : UInt32) : Except Fault AddressRange := do
  let unit ← info.unitAt offset
  info.addressesFrom unit.bases none none (← info.attributes offset)

end DebugInfo

end FirmwareDebug
