import FirmwareDebug.Leb128

/-!
# Attribute forms

A form says how the value of an attribute is written. `Form.read` gives the value, `Form.skip` only
passes over it. Strings, addresses and lists that are named by an offset or an index stay unresolved.
-/

namespace FirmwareDebug

/-- How a value is written. -/
inductive Form
  | address | block2 | block4 | data2 | data4 | data8 | string | block | block1 | data1 | flag
  | sdata | strp | udata | refAddr | ref1 | ref2 | ref4 | ref8 | refUdata | indirect | secOffset
  | exprloc | flagPresent | strx | addrx | refSup4 | strpSup | data16 | lineStrp | refSig8
  | implicitConst | loclistx | rnglistx | refSup8 | strx1 | strx2 | strx3 | strx4 | addrx1 | addrx2
  | addrx3 | addrx4 | gnuAddrIndex | gnuStrIndex | gnuRefAlt | gnuStrpAlt
  /-- A number that names no form which can be read. -/
  | other (code : UInt16)
  deriving DecidableEq, Repr

namespace Form

def ofCode (code : UInt16) : Form :=
  match code.toNat with
  | 0x1 => .address
  | 0x3 => .block2
  | 0x4 => .block4
  | 0x5 => .data2
  | 0x6 => .data4
  | 0x7 => .data8
  | 0x8 => .string
  | 0x9 => .block
  | 0xa => .block1
  | 0xb => .data1
  | 0xc => .flag
  | 0xd => .sdata
  | 0xe => .strp
  | 0xf => .udata
  | 0x10 => .refAddr
  | 0x11 => .ref1
  | 0x12 => .ref2
  | 0x13 => .ref4
  | 0x14 => .ref8
  | 0x15 => .refUdata
  | 0x16 => .indirect
  | 0x17 => .secOffset
  | 0x18 => .exprloc
  | 0x19 => .flagPresent
  | 0x1a => .strx
  | 0x1b => .addrx
  | 0x1c => .refSup4
  | 0x1d => .strpSup
  | 0x1e => .data16
  | 0x1f => .lineStrp
  | 0x20 => .refSig8
  | 0x21 => .implicitConst
  | 0x22 => .loclistx
  | 0x23 => .rnglistx
  | 0x24 => .refSup8
  | 0x25 => .strx1
  | 0x26 => .strx2
  | 0x27 => .strx3
  | 0x28 => .strx4
  | 0x29 => .addrx1
  | 0x2a => .addrx2
  | 0x2b => .addrx3
  | 0x2c => .addrx4
  | 0x1f01 => .gnuAddrIndex
  | 0x1f02 => .gnuStrIndex
  | 0x1f20 => .gnuRefAlt
  | 0x1f21 => .gnuStrpAlt
  | _ => .other code

def code : Form → UInt16
  | address => 0x1
  | block2 => 0x3
  | block4 => 0x4
  | data2 => 0x5
  | data4 => 0x6
  | data8 => 0x7
  | string => 0x8
  | block => 0x9
  | block1 => 0xa
  | data1 => 0xb
  | flag => 0xc
  | sdata => 0xd
  | strp => 0xe
  | udata => 0xf
  | refAddr => 0x10
  | ref1 => 0x11
  | ref2 => 0x12
  | ref4 => 0x13
  | ref8 => 0x14
  | refUdata => 0x15
  | indirect => 0x16
  | secOffset => 0x17
  | exprloc => 0x18
  | flagPresent => 0x19
  | strx => 0x1a
  | addrx => 0x1b
  | refSup4 => 0x1c
  | strpSup => 0x1d
  | data16 => 0x1e
  | lineStrp => 0x1f
  | refSig8 => 0x20
  | implicitConst => 0x21
  | loclistx => 0x22
  | rnglistx => 0x23
  | refSup8 => 0x24
  | strx1 => 0x25
  | strx2 => 0x26
  | strx3 => 0x27
  | strx4 => 0x28
  | addrx1 => 0x29
  | addrx2 => 0x2a
  | addrx3 => 0x2b
  | addrx4 => 0x2c
  | gnuAddrIndex => 0x1f01
  | gnuStrIndex => 0x1f02
  | gnuRefAlt => 0x1f20
  | gnuStrpAlt => 0x1f21
  | other code => code

end Form

/-- What of a unit changes the way forms are written in it. -/
structure Encoding where
  version : UInt16
  addressSize : UInt8
  deriving DecidableEq, Repr

/-- The size of a reference into the whole section; version 2 gives it the size of an address. -/
def Encoding.infoReferenceSize (encoding : Encoding) : UInt8 :=
  if encoding.version ≤ 2 then encoding.addressSize else 4

/-- The value of an attribute as it is written. -/
inductive AttributeValue
  | address (address : UInt32)
  /-- A number of an address in the unit's part of the address table. -/
  | addressIndex (index : UInt64)
  | constant (value : UInt64)
  | signed (value : Int64)
  | flag (value : Bool)
  /-- A reference that counts from the unit's header. -/
  | unitReference (offset : UInt32)
  /-- A reference that counts from the start of the section. -/
  | infoReference (offset : UInt32)
  /-- A reference into another file. -/
  | supplementaryReference (offset : UInt64)
  | typeSignature (signature : UInt64)
  | text (text : String)
  | textOffset (offset : UInt32)
  | textIndex (index : UInt64)
  | lineTextOffset (offset : UInt32)
  | supplementaryTextOffset (offset : UInt32)
  | block (bytes : List UInt8)
  | expression (bytes : List UInt8)
  | sectionOffset (offset : UInt32)
  | locationListIndex (index : UInt64)
  | rangeListIndex (index : UInt64)
  | data16 (bytes : List UInt8)
  deriving DecidableEq, Repr

namespace AttributeValue

def constant? : AttributeValue → Option UInt64
  | constant value => some value
  | signed value => some value.toUInt64
  | _ => none

def signed? : AttributeValue → Option Int64
  | constant value => some value.toInt64
  | signed value => some value
  | _ => none

/-- The value as a flag; a number is set when it is not zero. -/
def flag? : AttributeValue → Option Bool
  | flag value => some value
  | constant value => some (value ≠ 0)
  | _ => none

def block? : AttributeValue → Option (List UInt8)
  | block bytes => some bytes
  | expression bytes => some bytes
  | _ => none

/-- A place in another section; old versions write it as a number. -/
def sectionOffset? : AttributeValue → Option UInt32
  | sectionOffset offset => some offset
  | constant offset => if offset.toNat < 2 ^ 32 then some offset.toUInt32 else none
  | _ => none

/-- The place that a reference names, for a unit whose header is at `unit`. -/
def reference? (unit : UInt32) : AttributeValue → Option UInt32
  | unitReference offset => if unit.toNat + offset.toNat < 2 ^ 32 then some (unit + offset) else none
  | infoReference offset => some offset
  | _ => none

end AttributeValue

namespace Form

/-- The size of a value, for forms that always take the same number of bytes. -/
def fixedSize (encoding : Encoding) : Form → Option Nat
  | flagPresent | implicitConst => some 0
  | address => some encoding.addressSize.toNat
  | data1 | ref1 | flag | strx1 | addrx1 => some 1
  | data2 | ref2 | strx2 | addrx2 => some 2
  | strx3 | addrx3 => some 3
  | data4 | ref4 | strp | lineStrp | secOffset | strpSup | refSup4 | strx4 | addrx4 | gnuRefAlt
  | gnuStrpAlt => some 4
  | data8 | ref8 | refSig8 | refSup8 => some 8
  | data16 => some 16
  | refAddr => some encoding.infoReferenceSize.toNat
  | _ => none

end Form

namespace Read

def indirectForm : Read Form := do
  let code ← unsigned
  if code.toNat < 2 ^ 16 then return .ofCode code.toUInt16 else malformed (.indirectForm code)

def narrow (offset : UInt64) : Read UInt32 :=
  if offset.toNat < 2 ^ 32 then return offset.toUInt32 else malformed (.offsetPastWord offset)

def constant (size : Nat) : Read UInt64 := do return UInt64.ofNat (← number size)

end Read

namespace Form

open Read

/-- The form that a chain of indirections ends in; `budget` bounds the chain. -/
def directFor : (budget : Nat) → Form → Read Form
  | 0, form => return form
  | budget + 1, indirect => do directFor budget (← indirectForm)
  | _ + 1, form => return form

/-- The form that is used in the end: an indirect one is named by the data. -/
def direct (form : Form) : Read Form := fun c => directFor (c.left + 1) form c

/-- Pass over a value whose form is not indirect. -/
def skipDirect (encoding : Encoding) (form : Form) : Read Unit :=
  match form.fixedSize encoding with
  | some size => skip size
  | none =>
    match form with
    | string => discard text
    | block1 => do skip (← byte).toNat
    | block2 => do skip (← half).toNat
    | block4 => do skip (← word).toNat
    | block | exprloc => do skip (← unsigned).toNat
    | sdata => discard signed
    | udata | refUdata | strx | addrx | loclistx | rnglistx | gnuAddrIndex | gnuStrIndex => discard unsigned
    | form => throw (.unsupportedForm form.code)

def skip (encoding : Encoding) (form : Form) : Read Unit := do skipDirect encoding (← form.direct)

/-- The value in a form that is not indirect; `implicit` is the value that the abbreviation holds. -/
def readDirect (encoding : Encoding) (implicit : Option Int64) : Form → Read AttributeValue
  | address => return .address (← Read.address encoding.addressSize)
  | addrx | gnuAddrIndex => return .addressIndex (← unsigned)
  | addrx1 => return .addressIndex (← constant 1)
  | addrx2 => return .addressIndex (← constant 2)
  | addrx3 => return .addressIndex (← constant 3)
  | addrx4 => return .addressIndex (← constant 4)
  | data1 => return .constant (← constant 1)
  | data2 => return .constant (← constant 2)
  | data4 => return .constant (← constant 4)
  | data8 => return .constant (← constant 8)
  | data16 => return .data16 (← bytes 16)
  | udata => return .constant (← unsigned)
  | sdata => return .signed (← signed)
  | implicitConst => return .signed (implicit.getD 0)
  | flag => return .flag ((← byte) ≠ 0)
  | flagPresent => return .flag true
  | ref1 => return .unitReference (← byte).toUInt32
  | ref2 => return .unitReference (← half).toUInt32
  | ref4 => return .unitReference (← word)
  | ref8 => return .unitReference (← narrow (← long))
  | refUdata => return .unitReference (← narrow (← unsigned))
  | refAddr => return .infoReference (← narrow (← sized encoding.infoReferenceSize))
  | refSup4 | gnuRefAlt => return .supplementaryReference (← constant 4)
  | refSup8 => return .supplementaryReference (← long)
  | refSig8 => return .typeSignature (← long)
  | string => return .text (← text)
  | strp => return .textOffset (← word)
  | lineStrp => return .lineTextOffset (← word)
  | strpSup | gnuStrpAlt => return .supplementaryTextOffset (← word)
  | strx | gnuStrIndex => return .textIndex (← unsigned)
  | strx1 => return .textIndex (← constant 1)
  | strx2 => return .textIndex (← constant 2)
  | strx3 => return .textIndex (← constant 3)
  | strx4 => return .textIndex (← constant 4)
  | block1 => return .block (← bytes (← byte).toNat)
  | block2 => return .block (← bytes (← half).toNat)
  | block4 => return .block (← bytes (← word).toNat)
  | block => return .block (← bytes (← unsigned).toNat)
  | exprloc => return .expression (← bytes (← unsigned).toNat)
  | secOffset => return .sectionOffset (← word)
  | loclistx => return .locationListIndex (← unsigned)
  | rnglistx => return .rangeListIndex (← unsigned)
  | form => throw (.unsupportedForm form.code)

def read (encoding : Encoding) (implicit : Option Int64) (form : Form) : Read AttributeValue := do
  readDirect encoding implicit (← form.direct)

end Form

end FirmwareDebug
