import FirmwareDebug.LineTable.Header

/-!
# Instructions of line programs

A line program is read as a list of instructions before any of them is carried out. Reading an
instruction always moves the cursor forward.
-/

namespace FirmwareDebug.LineTable

open Read

/-- One instruction of a line program. -/
inductive Instruction
  /-- Advance address and line together and add a row; the opcode counts from the opcode base. -/
  | special (opcode : UInt8)
  | copy
  | advancePc (operations : UInt32)
  | advanceLine (lines : Int32)
  | setFile (file : UInt32)
  | setColumn (column : UInt32)
  | negateStatement
  | setBasicBlock
  /-- Advance the address as special opcode 255 does. -/
  | constAddPc
  | fixedAdvancePc (bytes : UInt16)
  | setPrologueEnd
  | setEpilogueBegin
  | setIsa (isa : UInt32)
  | endSequence
  | setAddress (address : UInt32)
  | setDiscriminator (discriminator : UInt32)
  /-- An instruction that changes nothing. -/
  | pass
  deriving DecidableEq, Repr

namespace Instruction

/-- What an extended opcode does; its operands take `length` bytes with the opcode. -/
def readExtendedBody (length : Nat) : Read Instruction := do
  match ← byte with
  | 1 => return .endSequence
  | 2 =>
    if 256 < length then malformed .addressLength
    return .setAddress (← sized (UInt8.ofNat (length - 1))).toUInt32
  | 3 =>
    discard text
    return .pass
  | 4 => return .setDiscriminator (← unsigned32)
  | _ => return .pass

/-- An extended instruction. The next one starts where its length says, whatever was read of it. -/
def readExtended : Read Instruction := do
  let length ← unsigned
  if length = 0 then return .pass
  let next := (← position) + length.toNat
  if 2 ^ 64 ≤ next then malformed .extendedLength
  let instruction ← readExtendedBody length.toNat
  seek next
  return instruction

/-- An instruction of the standard's opcodes; unknown ones have as many operands as the header says. -/
def readStandard (header : Header) (opcode : UInt8) : Read Instruction := do
  match opcode with
  | 0 => readExtended
  | 1 => return .copy
  | 2 => return .advancePc (← unsigned32)
  | 3 => return .advanceLine (← signed32)
  | 4 => return .setFile (← unsigned32)
  | 5 => return .setColumn (← unsigned32)
  | 6 => return .negateStatement
  | 7 => return .setBasicBlock
  | 8 => return .constAddPc
  | 9 => return .fixedAdvancePc (← half)
  | 10 => return .setPrologueEnd
  | 11 => return .setEpilogueBegin
  | 12 => return .setIsa (← unsigned32)
  | opcode =>
    discard (times unsigned (header.operandCounts[opcode.toNat - 1]?.getD 0).toNat)
    return .pass

def read (header : Header) : Read Instruction := do
  let opcode ← byte
  if header.opcodeBase ≤ opcode then return .special (opcode - header.opcodeBase)
  else readStandard header opcode

end Instruction

def Header.instructions (header : Header) (section' : Bytes) : Except Fault (Decoded Instruction) := do
  let program ← (within (header.stop - header.start)).eval (.place region section' header.start)
  return .ofCursor (Instruction.read header) program

end FirmwareDebug.LineTable
