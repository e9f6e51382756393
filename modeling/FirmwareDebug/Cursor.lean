import FirmwareDebug.Bytes
import FirmwareDebug.Fault
import FirmwareDebug.Text.LossyUtf8

/-!
# Reading from a section

A `Cursor` is a place in a section and the end it may not pass. A `Read` moves the cursor forward
and gives a value or a fault; after a fault the cursor is where the read gave up.
-/

namespace FirmwareDebug

/-- A place in the bytes of a named section. -/
structure Cursor where
  region : String
  bytes : Bytes
  /-- The end of what may be read. -/
  limit : Nat
  position : Nat
  limit_le : limit ≤ bytes.size

namespace Cursor

/-- A cursor on a whole section. A place past the end is allowed; reading there fails. -/
def place (region : String) (bytes : Bytes) (position : Nat) : Cursor :=
  ⟨region, bytes, bytes.size, position, Nat.le_refl _⟩

def atEnd (c : Cursor) : Bool := c.limit ≤ c.position

def left (c : Cursor) : Nat := c.limit - c.position

/-- The next `count` bytes, or fewer at the end. -/
def window (c : Cursor) (count : Nat) : Bytes :=
  c.bytes.extract c.position (min c.limit (c.position + count))

def rest (c : Cursor) : Bytes := c.bytes.extract c.position c.limit

/-- How many bytes come before the first zero byte, of at most `left` bytes after the first `count`. -/
def lengthToZero (c : Cursor) : (left : Nat) → (count : Nat) → Option Nat
  | 0, _ => none
  | left + 1, count =>
    if c.bytes[c.position + count]? = some 0 then some count else c.lengthToZero left (count + 1)

/-- The cursor `count` bytes further on. -/
def advance (c : Cursor) (count : Nat) : Cursor := { c with position := c.position + count }

def endFault (c : Cursor) : Fault := .endOfSection c.region c.position

def fault (c : Cursor) (defect : Defect) : Fault := .malformed c.region c.position defect

/-- A cursor at the same place that ends `length` bytes further on. -/
def truncated? (c : Cursor) (length : Nat) : Option Cursor :=
  if h : c.position + length ≤ c.limit then
    some { c with limit := c.position + length, limit_le := Nat.le_trans h c.limit_le }
  else none

end Cursor

abbrev Read (α : Type) := EStateM Fault Cursor α

namespace Read

def malformed {α : Type} (defect : Defect) : Read α := do throw ((← get).fault defect)

def position : Read Nat := do return (← get).position

def atEnd : Read Bool := do return (← get).atEnd

def seek (position : Nat) : Read Unit := modify fun c => { c with position }

/-- The next `length` bytes; without them all the cursor stays. -/
def bytes (length : Nat) : Read (List UInt8) := fun c =>
  if c.position + length ≤ c.limit then .ok (c.window length).toList (c.advance length)
  else .error c.endFault c

/-- Pass over the next `length` bytes; without them all the cursor stays. -/
def skip (length : Nat) : Read Unit := fun c =>
  if c.position + length ≤ c.limit then .ok () (c.advance length) else .error c.endFault c

/-- A number in the next `size` bytes, least significant byte first. -/
def number (size : Nat) : Read Nat := do return littleEndian (← bytes size)

def byte : Read UInt8 := fun c =>
  if h : c.position < c.limit then
    have := Nat.lt_of_lt_of_le h c.limit_le
    .ok c.bytes[c.position] (c.advance 1)
  else .error c.endFault c

def signedByte : Read Int8 := do return (← byte).toInt8

def half : Read UInt16 := do return UInt16.ofNat (← number 2)

def signedHalf : Read Int16 := do return (← half).toInt16

def word : Read UInt32 := do return UInt32.ofNat (← number 4)

def signedWord : Read Int32 := do return (← word).toInt32

def long : Read UInt64 := do return UInt64.ofNat (← number 8)

def sized (size : UInt8) : Read UInt64 :=
  if size = 1 ∨ size = 2 ∨ size = 4 ∨ size = 8 then do return UInt64.ofNat (← number size.toNat)
  else malformed (.integerSize size)

/-- An address; the target has addresses of four bytes only. -/
def address (size : UInt8) : Read UInt32 :=
  if size = 4 then word else throw (.unsupportedAddressSize size)

def text : Read String := fun c =>
  match c.lengthToZero c.left 0 with
  | some length =>
    match Text.decodeUtf8? (c.window length).toList with
    | some s => .ok s (c.advance (length + 1))
    | none => .error (c.fault .textNotUtf8) c
  | none => .error (.endOfSection c.region c.limit) c

/-- A cursor at the same place that may read only `length` bytes more. -/
def within (length : Nat) : Read Cursor := fun c =>
  match c.truncated? length with
  | some inner => .ok inner c
  | none => .error c.endFault c

/-- Steps until one gives nothing; `budget` bounds their number. -/
def repeatFor {α : Type} (step : Read (Option α)) : (budget : Nat) → Read (List α)
  | 0 => do throw (← get).endFault
  | budget + 1 => do
    match ← step with
    | none => return []
    | some a => return a :: (← repeatFor step budget)

/-- Steps until one gives nothing. A step that gives something must read at least one byte. -/
def untilNone {α : Type} (step : Read (Option α)) : Read (List α) := fun c =>
  repeatFor step (c.left + 1) c

/-- A step for each of `count` numbers. -/
def times {α : Type} (step : Read α) : (count : Nat) → Read (List α)
  | 0 => return []
  | count + 1 => do return (← step) :: (← times step count)

def eval {α : Type} (read : Read α) (c : Cursor) : Except Fault α :=
  match read c with
  | .ok a _ => .ok a
  | .error e _ => .error e

end Read

def textAt (region : String) (bytes : Bytes) (offset : Nat) : Except Fault String :=
  Read.text.eval (.place region bytes offset)

/-- Items read one after the other, and the fault that ended them if one did. -/
structure Decoded (α : Type) where
  items : List α
  fault : Option Fault

namespace Decoded

def cons {α : Type} (a : α) (d : Decoded α) : Decoded α := ⟨a :: d.items, d.fault⟩

/-- Steps to the end of the cursor; `budget` bounds their number. -/
def collect {α : Type} (step : Read α) : (budget : Nat) → Cursor → Decoded α
  | 0, _ => ⟨[], none⟩
  | budget + 1, c =>
    if c.atEnd then ⟨[], none⟩
    else match step c with
      | .ok a next => cons a (collect step budget next)
      | .error e _ => ⟨[], some e⟩

/-- Steps to the end of the cursor. A step must move the cursor forward. -/
def ofCursor {α : Type} (step : Read α) (c : Cursor) : Decoded α := collect step c.left c

def all {α : Type} (d : Decoded α) : Except Fault (List α) :=
  match d.fault with
  | none => .ok d.items
  | some e => .error e

end Decoded

end FirmwareDebug
