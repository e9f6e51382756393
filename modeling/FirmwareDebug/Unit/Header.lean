import FirmwareDebug.Abbreviation

/-!
# Headers of units

Units of two sections share one space of offsets: those of the type section come behind all bytes
of the other one. `bias` is what a section's offsets are raised by.
-/

namespace FirmwareDebug

open Read

/-- What stands in front of a unit's entries. -/
structure UnitHeader where
  offset : UInt32
  /-- The end of the unit. -/
  stop : UInt32
  version : UInt16
  kind : UInt8
  abbreviations : UInt32
  addressSize : UInt8
  /-- The place of the unit's first entry. -/
  firstEntry : UInt32
  signature : Option UInt64
  /-- The place of the type in a type unit, counted from the header. -/
  typeOffset : Option UInt32
  inTypes : Bool
  deriving DecidableEq, Repr

namespace UnitHeader

def encoding (header : UnitHeader) : Encoding := ⟨header.version, header.addressSize⟩

def contains (header : UnitHeader) (offset : UInt32) : Bool :=
  header.offset ≤ offset && offset < header.stop

/-- Kind of unit, table of abbreviations and address size, in the order of the version. -/
def readLayout (version : UInt16) (inTypes : Bool) : Read (UInt8 × UInt32 × UInt8) := do
  if 5 ≤ version then
    let kind ← byte
    let addressSize ← byte
    return (kind, ← word, addressSize)
  else
    let abbreviations ← word
    return (if inTypes then 2 else 1, abbreviations, ← byte)

/-- Signature and place of the type, for the kinds of unit that have them. -/
def readExtras (kind : UInt8) : Read (Option UInt64 × Option UInt32) := do
  match kind with
  | 2 | 6 =>
    let signature ← long
    return (some signature, some (← word))
  | 4 | 5 =>
    discard long
    return (none, none)
  | 1 | 3 => return (none, none)
  | kind => malformed (.unitKind kind)

def readFields (bias : UInt32) (inTypes : Bool) (start stop : Nat) : Read UnitHeader := do
  let version ← half
  if version < 2 ∨ 5 < version then throw (.unsupportedVersion version)
  let (kind, abbreviations, addressSize) ← readLayout version inTypes
  if addressSize ≠ 4 then throw (.unsupportedAddressSize addressSize)
  let (signature, typeOffset) ← readExtras kind
  return { offset := UInt32.ofNat start + bias, stop := UInt32.ofNat stop + bias, version, kind,
           abbreviations, addressSize, firstEntry := UInt32.ofNat (← position) + bias, signature,
           typeOffset, inTypes }

/-- The header that is next; the cursor moves behind its unit. -/
def read (bias : UInt32) (inTypes : Bool) : Read UnitHeader := do
  let start ← position
  let length ← word
  if length = 0xffffffff then throw (.wideFormat start)
  if 0xfffffff0 ≤ length then malformed (.reservedLength length)
  let stop := (← position) + length.toNat
  let unit ← within length.toNat
  let header ← liftExcept ((readFields bias inTypes start stop).eval unit)
  seek stop
  return header

def readAll (region : String) (bytes : Bytes) (bias : UInt32) (inTypes : Bool) :
    Except Fault (List UnitHeader) :=
  (Decoded.ofCursor (read bias inTypes) (.place region bytes 0)).all

end UnitHeader

end FirmwareDebug
