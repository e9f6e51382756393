/-! # Sets of addresses -/

namespace FirmwareDebug

/-- The addresses from `start` up to, but not including, `stop`. -/
structure Interval where
  start : UInt32
  stop : UInt32
  deriving DecidableEq, Repr

def Interval.contains (i : Interval) (address : UInt32) : Bool := i.start ≤ address && address < i.stop

def Interval.isEmpty (i : Interval) : Bool := i.stop ≤ i.start

abbrev AddressRange := List Interval

namespace AddressRange

def push (range : AddressRange) (i : Interval) : AddressRange :=
  if i.isEmpty then range else range ++ [i]

/-- The addresses from `low` up to `high`. -/
def ofBounds (low high : UInt32) : AddressRange := push [] ⟨low, high⟩

def contains (range : AddressRange) (address : UInt32) : Bool := range.any (·.contains address)

def lowest? (range : AddressRange) : Option UInt32 := (range.map Interval.start).min?

def highest? (range : AddressRange) : Option UInt32 := (range.map Interval.stop).max?

end AddressRange

end FirmwareDebug
