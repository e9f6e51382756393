import FirmwareDebug.AddressRange
import FirmwareDebug.Leb128

/-!
# Range lists

A range list writes a set of addresses. Up to version 4 it is a list of pairs of words; from
version 5 on each entry starts with its kind and may name addresses by their number. Both are read
into the same entries, whose meaning does not depend on the format.
-/

namespace FirmwareDebug

open Read

/-- One entry of a range list. -/
inductive RangeEntry
  /-- Offsets count from here on from this address. -/
  | base (address : UInt32)
  | absolute (interval : Interval)
  /-- An interval that counts from the base in force. -/
  | offsets (start stop : UInt32)
  deriving DecidableEq, Repr

/-- An interval that counts from a base; addresses wrap around. -/
def Interval.relative (base start stop : UInt32) : Interval := ⟨base + start, base + stop⟩

/-- An interval with a length; addresses wrap around. -/
def Interval.ofLength (start length : UInt32) : Interval := ⟨start, start + length⟩

namespace RangeList

/-- The intervals that entries denote; empty ones are left out. -/
def intervals (base : UInt32) : List RangeEntry → AddressRange
  | [] => []
  | .base address :: rest => intervals address rest
  | .absolute interval :: rest =>
    if interval.isEmpty then intervals base rest else interval :: intervals base rest
  | .offsets start stop :: rest =>
    let interval := Interval.relative base start stop
    if interval.isEmpty then intervals base rest else interval :: intervals base rest

/-- The section of old range lists. -/
def oldRegion : String := ".debug_ranges"

def region : String := ".debug_rnglists"

/-- An old entry: two zeros end the list, a start of all ones sets the base. -/
def readOldEntry : Read (Option RangeEntry) := do
  let start ← word
  let stop ← word
  if start = 0 ∧ stop = 0 then return none
  else if start = 0xffffffff then return some (.base stop)
  else return some (.offsets start stop)

def readIndexed (addressAt : UInt64 → Except Fault UInt32) : Read UInt32 := do
  liftExcept (addressAt (← unsigned))

/-- An entry behind its kind, or nothing at the kind that ends the list. -/
def readEntry (addressAt : UInt64 → Except Fault UInt32) : Read (Option RangeEntry) := do
  match ← byte with
  | 0 => return none
  | 1 => return some (.base (← readIndexed addressAt))
  | 2 =>
    let start ← readIndexed addressAt
    return some (.absolute ⟨start, ← readIndexed addressAt⟩)
  | 3 =>
    let start ← readIndexed addressAt
    return some (.absolute (.ofLength start (← unsigned32)))
  | 4 =>
    let start ← unsigned32
    return some (.offsets start (← unsigned32))
  | 5 => return some (.base (← word))
  | 6 =>
    let start ← word
    return some (.absolute ⟨start, ← word⟩)
  | 7 =>
    let start ← word
    return some (.absolute (.ofLength start (← unsigned32)))
  | kind => malformed (.rangeEntry kind)

def readOld (bytes : Bytes) (offset base : UInt32) : Except Fault AddressRange := do
  return intervals base (← (untilNone readOldEntry).eval (.place oldRegion bytes offset.toNat))

def read (bytes : Bytes) (offset base : UInt32) (addressAt : UInt64 → Except Fault UInt32) :
    Except Fault AddressRange := do
  return intervals base (← (untilNone (readEntry addressAt)).eval (.place region bytes offset.toNat))

end RangeList

end FirmwareDebug
