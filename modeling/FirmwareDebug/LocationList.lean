import FirmwareDebug.RangeList

/-!
# Location lists

A location list says which expression computes a value at which addresses. As for range lists there
are two formats, read into the same entries. A default entry holds where no other one does.
-/

namespace FirmwareDebug

open Read

/-- One entry of a location list. -/
inductive LocationEntry
  /-- Offsets count from here on from this address. -/
  | base (address : UInt32)
  | absolute (interval : Interval) (expression : List UInt8)
  /-- Addresses that count from the base in force. -/
  | offsets (start stop : UInt32) (expression : List UInt8)
  | default (expression : List UInt8)
  deriving DecidableEq, Repr

/-- An expression and the addresses it holds for; without addresses it is a default. -/
structure LocatedExpression where
  interval : Option Interval
  expression : List UInt8
  deriving DecidableEq, Repr

namespace LocationList

def expressions (base : UInt32) : List LocationEntry → List LocatedExpression
  | [] => []
  | .base address :: rest => expressions address rest
  | .absolute interval expression :: rest => ⟨some interval, expression⟩ :: expressions base rest
  | .offsets start stop expression :: rest =>
    ⟨some (.relative base start stop), expression⟩ :: expressions base rest
  | .default expression :: rest => ⟨none, expression⟩ :: expressions base rest

/-- The first expression that holds at an address, or else the first default. -/
def select (pc : UInt32) (entries : List LocatedExpression) : Option (List UInt8) :=
  match entries.find? fun entry => entry.interval.any (·.contains pc) with
  | some entry => some entry.expression
  | none => (entries.find? (·.interval.isNone)).map LocatedExpression.expression

/-- The section of old location lists. -/
def oldRegion : String := ".debug_loc"

def region : String := ".debug_loclists"

/-- An old entry: two zeros end the list, a start of all ones sets the base. -/
def readOldEntry : Read (Option LocationEntry) := do
  let start ← word
  let stop ← word
  if start = 0 ∧ stop = 0 then return none
  else if start = 0xffffffff then return some (.base stop)
  else return some (.offsets start stop (← bytes (← half).toNat))

def readExpression : Read (List UInt8) := do bytes (← unsigned).toNat

open RangeList in
/-- An entry behind its kind, or nothing at the kind that ends the list. -/
def readEntry (addressAt : UInt64 → Except Fault UInt32) : Read (Option LocationEntry) := do
  match ← byte with
  | 0 => return none
  | 1 => return some (.base (← readIndexed addressAt))
  | 2 =>
    let start ← readIndexed addressAt
    let stop ← readIndexed addressAt
    return some (.absolute ⟨start, stop⟩ (← readExpression))
  | 3 =>
    let start ← readIndexed addressAt
    let length ← unsigned32
    return some (.absolute (.ofLength start length) (← readExpression))
  | 4 =>
    let start ← unsigned32
    let stop ← unsigned32
    return some (.offsets start stop (← readExpression))
  | 5 => return some (.default (← readExpression))
  | 6 => return some (.base (← word))
  | 7 =>
    let start ← word
    let stop ← word
    return some (.absolute ⟨start, stop⟩ (← readExpression))
  | 8 =>
    let start ← word
    let length ← unsigned32
    return some (.absolute (.ofLength start length) (← readExpression))
  | kind => malformed (.locationEntry kind)

def readOld (bytes : Bytes) (offset base : UInt32) : Except Fault (List LocatedExpression) := do
  return expressions base (← (untilNone readOldEntry).eval (.place oldRegion bytes offset.toNat))

def read (bytes : Bytes) (offset base : UInt32) (addressAt : UInt64 → Except Fault UInt32) :
    Except Fault (List LocatedExpression) := do
  return expressions base (← (untilNone (readEntry addressAt)).eval (.place region bytes offset.toNat))

end LocationList

end FirmwareDebug
