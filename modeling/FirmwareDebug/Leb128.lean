import FirmwareDebug.Cursor

/-!
# Numbers in groups of seven bits

Each byte carries seven bits, lowest first; its high bit says that another byte follows. A signed
number repeats the sign bit of its last group. Numbers are read into 64 bits.
-/

namespace FirmwareDebug.Leb128

/-- How the reading of a number ends, after how many bytes. -/
inductive Ending (α : Type)
  | number (value : α) (used : Nat)
  /-- The number does not fit. -/
  | tooWide (used : Nat)
  /-- The bytes end inside the number. -/
  | unfinished
  deriving Repr, DecidableEq

def payload (b : UInt8) : UInt64 := (b &&& 0x7f).toUInt64

def continues (b : UInt8) : Bool := b &&& 0x80 ≠ 0

/-- Reads an unsigned number; the groups before it gave the lowest `shift` bits. -/
def unsignedFrom (shift used : Nat) (value : UInt64) : List UInt8 → Ending UInt64
  | [] => .unfinished
  | b :: rest =>
    if 64 ≤ shift ∨ (shift = 63 ∧ b &&& 0x7e ≠ 0) then .tooWide (used + 1)
    else
      let value := value ||| payload b <<< UInt64.ofNat shift
      if continues b then unsignedFrom (shift + 7) (used + 1) value rest else .number value (used + 1)

/-- Reads a signed number; bits past the 64th are dropped. -/
def signedFrom (shift used : Nat) (value : UInt64) : List UInt8 → Ending Int64
  | [] => .unfinished
  | b :: rest =>
    if 64 ≤ shift then .tooWide (used + 1)
    else
      let value := value ||| payload b <<< UInt64.ofNat shift
      if continues b then signedFrom (shift + 7) (used + 1) value rest
      else if shift + 7 < 64 ∧ b &&& 0x40 ≠ 0 then
        .number (value ||| (-1 : UInt64) <<< UInt64.ofNat (shift + 7)).toInt64 (used + 1)
      else .number value.toInt64 (used + 1)

/-- No number that fits has more bytes, and one more tells that it does not fit. -/
def maxBytes : Nat := 11

end FirmwareDebug.Leb128

namespace FirmwareDebug.Read

/-- A number in groups of seven bits; one that does not fit is a defect at its first byte. -/
def leb128 {α : Type} (decode : List UInt8 → Leb128.Ending α) (tooWide : Defect) : Read α := fun c =>
  match decode (c.window Leb128.maxBytes).toList with
  | .number value used => .ok value (c.advance used)
  | .tooWide used => .error (c.fault tooWide) (c.advance used)
  | .unfinished =>
    let last := c.advance (c.window Leb128.maxBytes).size
    .error last.endFault last

def unsigned : Read UInt64 := leb128 (Leb128.unsignedFrom 0 0 0) .unsignedTooWide

def signed : Read Int64 := leb128 (Leb128.signedFrom 0 0 0) .signedTooWide

def unsigned32 : Read UInt32 := do
  let start ← get
  let value ← unsigned
  if value.toNat < 2 ^ 32 then return value.toUInt32 else throw (start.fault (.unsignedPastWord value))

def signed32 : Read Int32 := do
  let start ← get
  let value ← signed
  if -2 ^ 31 ≤ value.toInt ∧ value.toInt < 2 ^ 31 then return value.toInt32
  else throw (start.fault (.signedPastWord value))

end FirmwareDebug.Read
