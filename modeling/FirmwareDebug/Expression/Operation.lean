import FirmwareDebug.Leb128
import FirmwareDebug.Program

/-!
# Operations of expressions

An expression is a row of operations, each an opcode with its operands. Most operations are one word
of the stack machine; the others keep their operands for the compiler.
-/

namespace FirmwareDebug.Expression

open Read

def region : String := "DWARF expression"

/-- One operation with its operands. -/
inductive Operation
  | word (word : Word)
  | plusConstant (value : UInt32)
  /-- Go forward over some bytes: always, or when the cell on top is not zero. -/
  | branch (always : Bool) (displacement : Int16)
  | nop
  /-- A piece in bits, with an offset in bits. -/
  | bitPiece (size : UInt32) (offset : UInt64)
  /-- A constant of four bytes at most. -/
  | implicit (bytes : List UInt8)
  /-- An address of the unit by its number. -/
  | addressIndex (index : UInt64)
  | typedConstant (type : UInt32) (bytes : List UInt8)
  | typedRegister (register type : UInt32)
  | typedDeref (size : UInt8) (type : UInt32)
  /-- Change to a type; zero is the type of cells. -/
  | convert (type : UInt32)
  /-- An operation that no words stand for. -/
  | other
  deriving DecidableEq, Repr

namespace Operation

def plainWord? : UInt8 → Option Word
  | 0x06 => some .deref
  | 0x12 => some .dup
  | 0x13 => some .drop
  | 0x14 => some .dupSecond
  | 0x16 => some .swap
  | 0x17 => some .rot
  | 0x19 => some .abs
  | 0x1a => some (.binary .and)
  | 0x1b => some (.binary .div)
  | 0x1c => some (.binary .minus)
  | 0x1d => some (.binary .mod)
  | 0x1e => some (.binary .mul)
  | 0x1f => some .neg
  | 0x20 => some .not
  | 0x21 => some (.binary .or)
  | 0x22 => some (.binary .plus)
  | 0x24 => some (.binary .shl)
  | 0x25 => some (.binary .shr)
  | 0x26 => some (.binary .shra)
  | 0x27 => some (.binary .xor)
  | 0x29 => some (.compare .eq)
  | 0x2a => some (.compare .ge)
  | 0x2b => some (.compare .gt)
  | 0x2c => some (.compare .le)
  | 0x2d => some (.compare .lt)
  | 0x2e => some (.compare .ne)
  | 0x9c => some .callFrameCfa
  | 0x9f => some .stackValue
  | _ => none

def literal (value : UInt32) : Operation := .word (.literal value)

def readConstant? : UInt8 → Option (Read UInt32)
  | 0x03 => some Read.word
  | 0x08 => some do return (← byte).toUInt32
  | 0x09 => some do return (← signedByte).toInt32.toUInt32
  | 0x0a => some do return (← half).toUInt32
  | 0x0b => some do return (← signedHalf).toInt32.toUInt32
  | 0x0c => some Read.word
  | 0x0d => some Read.word
  | 0x0e => some do return (← long).toUInt32
  | 0x0f => some do return (← long).toUInt32
  | 0x10 => some do return (← unsigned).toUInt32
  | 0x11 => some do return (← signed).toUInt64.toUInt32
  | _ => none

/-- A constant with its length in front. One that is too long is not read. -/
def readImplicit : Read Operation := do
  let length ← unsigned
  if 4 < length then return .other else return .implicit (← bytes length.toNat)

def readOperands (opcode : UInt8) : Read Operation := do
  match opcode with
  | 0x15 => return .word (.pick (← byte))
  | 0x23 => return .plusConstant (← unsigned).toUInt32
  | 0x28 => return .branch false (← signedHalf)
  | 0x2f => return .branch true (← signedHalf)
  | 0x90 => return .word (.register (← unsigned32))
  | 0x91 => return .word (.frameBase (← signed32))
  | 0x92 =>
    let register ← unsigned32
    return .word (.registerValue register (← signed32))
  | 0x93 => return .word (.piece (← unsigned32))
  | 0x94 =>
    let size ← byte
    return if size = 0 ∨ 4 < size then .other else .word (.derefSize size)
  | 0x96 => return .nop
  | 0x9d =>
    let size ← unsigned32
    return .bitPiece size (← unsigned)
  | 0x9e => readImplicit
  | 0xa3 | 0xf3 => return .word (.entryValue (← bytes (← unsigned).toNat))
  | 0xa1 | 0xa2 | 0xfb | 0xfc => return .addressIndex (← unsigned)
  | 0xa4 | 0xf4 =>
    let type ← unsigned32
    return .typedConstant type (← bytes (← byte).toNat)
  | 0xa5 | 0xf5 =>
    let register ← unsigned32
    return .typedRegister register (← unsigned32)
  | 0xa6 | 0xf6 =>
    let size ← byte
    return .typedDeref size (← unsigned32)
  | 0xa8 | 0xa9 | 0xf7 | 0xf9 => return .convert (← unsigned32)
  | _ => return .other

def readBody (opcode : UInt8) : Read Operation := do
  if 0x30 ≤ opcode ∧ opcode < 0x50 then return literal (opcode - 0x30).toUInt32
  else if 0x50 ≤ opcode ∧ opcode < 0x70 then return .word (.register (opcode - 0x50).toUInt32)
  else if 0x70 ≤ opcode ∧ opcode < 0x90 then
    return .word (.registerValue (opcode - 0x70).toUInt32 (← signed32))
  else match plainWord? opcode, readConstant? opcode with
    | some w, _ => return .word w
    | none, some constant => return literal (← constant)
    | none, none => readOperands opcode

def read : Read (UInt8 × Operation) := do
  let opcode ← byte
  return (opcode, ← readBody opcode)

end Operation

end FirmwareDebug.Expression
