import FirmwareDebug.Form

/-!
# Abbreviations

An abbreviation says which tag and which attributes an entry has, so that the entry itself writes
only a code and its values. Units name the table they use by its offset.
-/

namespace FirmwareDebug

/-- The tag of an entry. -/
structure Tag where
  code : UInt16
  deriving DecidableEq, Repr, Inhabited

/-- The name of an attribute. -/
structure AttributeName where
  code : UInt16
  deriving DecidableEq, Repr

/-- One attribute of an abbreviation. -/
structure AttributeSpec where
  name : AttributeName
  form : Form
  /-- The value, if the abbreviation holds it. -/
  implicit : Option Int64
  deriving DecidableEq, Repr

/-- What entries with one code have in common. -/
structure Abbreviation where
  code : UInt64
  tag : Tag
  hasChildren : Bool
  /-- Where in the section the abbreviation is written. -/
  offset : UInt32
  attributes : List AttributeSpec
  deriving DecidableEq, Repr

/-- The abbreviations that start at one offset, in order. -/
structure AbbreviationTable where
  offset : UInt32
  entries : List Abbreviation

namespace Abbreviation

open Read

def region : String := ".debug_abbrev"

/-- One attribute, or nothing at the pair of zeros that ends the list. -/
def readSpec : Read (Option AttributeSpec) := do
  let name ← unsigned
  let form ← unsigned
  if name = 0 ∧ form = 0 then return none
  if 2 ^ 16 ≤ name.toNat then malformed (.attributeRange name)
  if 2 ^ 16 ≤ form.toNat then malformed (.formRange form)
  let form := Form.ofCode form.toUInt16
  let implicit ← if form = .implicitConst then some <$> signed else pure none
  return some ⟨⟨name.toUInt16⟩, form, implicit⟩

def readChildren : Read Bool := do
  match ← byte with
  | 0 => return false
  | 1 => return true
  | flag => malformed (.childrenFlag flag)

def read : Read (Option Abbreviation) := do
  let offset ← position
  let code ← unsigned
  if code = 0 then return none
  let tag ← unsigned
  if 2 ^ 16 ≤ tag.toNat then malformed (.tagRange tag)
  let hasChildren ← readChildren
  let attributes ← untilNone readSpec
  return some ⟨code, ⟨tag.toUInt16⟩, hasChildren, UInt32.ofNat offset, attributes⟩

def has (a : Abbreviation) (name : AttributeName) : Bool := a.attributes.any fun spec => spec.name = name

end Abbreviation

namespace AbbreviationTable

open Read Abbreviation

/-- The abbreviation that is next, if its code is not among the codes `seen`. -/
def readNew (seen : List UInt64) : Read (Option Abbreviation) := do
  match ← Abbreviation.read with
  | none => return none
  | some a =>
    if seen.contains a.code then throw (.malformed region a.offset.toNat (.duplicateCode a.code))
    return some a

/-- Abbreviations up to the end of the table; `budget` bounds their number. -/
def readFrom (seen : List UInt64) : (budget : Nat) → Read (List Abbreviation)
  | 0 => do throw (← get).endFault
  | budget + 1 => do
    match ← readNew seen with
    | none => return []
    | some a => return a :: (← readFrom (a.code :: seen) budget)

/-- The table at an offset of the section. A code may stand in it once only. -/
def read (bytes : Bytes) (offset : UInt32) : Except Fault AbbreviationTable := do
  let c := Cursor.place region bytes offset.toNat
  return ⟨offset, ← (readFrom [] (c.left + 1)).eval c⟩

def find (table : AbbreviationTable) (code : UInt64) : Except Fault Abbreviation :=
  match table.entries.find? fun a => a.code = code with
  | some a => .ok a
  | none => .error (.abbreviationNotFound code table.offset)

end AbbreviationTable

end FirmwareDebug
