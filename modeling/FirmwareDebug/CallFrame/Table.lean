import FirmwareDebug.Leb128
import FirmwareDebug.SortedSearch

/-!
# Call frame information

For each piece of code there is a description of how to find the registers of its caller. What many
descriptions have in common is kept in a common entry that they point to.
-/

namespace FirmwareDebug.CallFrame

open Read

def region : String := ".debug_frame"

/-- What descriptions of frames have in common. -/
structure CommonEntry where
  offset : UInt32
  version : UInt8
  augmentation : String
  codeAlignment : UInt32
  dataAlignment : Int32
  returnAddressRegister : UInt32
  instructions : List UInt8
  deriving DecidableEq, Repr

/-- How the caller is found from some piece of code. -/
structure Description where
  offset : UInt32
  commonEntry : UInt32
  start : UInt32
  length : UInt32
  instructions : List UInt8
  deriving DecidableEq, Repr

/-- Whether an address belongs to the described code. -/
def Description.covers (d : Description) (address : UInt32) : Bool :=
  d.start ≤ address && address - d.start < d.length

def commonMark : UInt32 := 0xffffffff

/-- The next description; there is none in a common entry or in padding. -/
def readDescription : Read (Option Description) := do
  let offset ← position
  let length ← word
  if length = 0xffffffff then throw (.wideFormat offset)
  if length = 0 then return none
  let entry ← within length.toNat
  let next := (← position) + length.toNat
  let body : Read (Option Description) := do
    let mark ← word
    if mark = commonMark then return none
    let start ← word
    let size ← word
    return some ⟨UInt32.ofNat offset, mark, start, size, (← get).rest.toList⟩
  let description ← liftExcept (body.eval entry)
  seek next
  return description

/-- The descriptions of a section, in order of the addresses where they start. -/
structure Table where
  bytes : Bytes
  descriptions : Array Description

namespace Table

def read (bytes : Bytes) : Except Fault Table := do
  let found ← (Decoded.ofCursor readDescription (.place region bytes 0)).all
  let sorted := (found.filterMap id).mergeSort fun a b => a.start ≤ b.start
  return ⟨bytes, sorted.toArray⟩

/-- The description of the code at an address: the last that starts at or before it, if it goes that far. -/
def descriptionAt (table : Table) (address : UInt32) : Option Description :=
  let count := partitionPoint table.descriptions fun d => d.start ≤ address
  if count = 0 then none else table.descriptions[count - 1]?.filter (·.covers address)

end Table

def readCommonFields (offset : UInt32) : Read CommonEntry := do
  if (← word) ≠ commonMark then throw (.malformed region offset.toNat .notACie)
  let version ← byte
  if version ≠ 1 ∧ version ≠ 3 ∧ version ≠ 4 then throw (.unsupportedCieVersion version)
  let augmentation ← text
  if augmentation ≠ "" ∧ augmentation ≠ "armcc+" then throw (.unsupportedAugmentation augmentation)
  if version = 4 then
    let addressSize ← byte
    discard byte
    if addressSize ≠ 4 then throw (.unsupportedAddressSize addressSize)
  let codeAlignment ← unsigned32
  let dataAlignment ← signed32
  let returnAddressRegister ← if version = 1 then do pure (← byte).toUInt32 else unsigned32
  return ⟨offset, version, augmentation, codeAlignment, dataAlignment, returnAddressRegister,
    (← get).rest.toList⟩

def readCommonUnit (offset : UInt32) : Read Cursor := do
  let length ← word
  if length = 0xffffffff then throw (.wideFormat offset.toNat)
  within length.toNat

def CommonEntry.read (bytes : Bytes) (offset : UInt32) : Except Fault CommonEntry := do
  let entry ← (readCommonUnit offset).eval (.place region bytes offset.toNat)
  (readCommonFields offset).eval entry

end FirmwareDebug.CallFrame
