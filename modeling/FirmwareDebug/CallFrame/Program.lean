import FirmwareDebug.CallFrame.Table
import FirmwareDebug.Program

/-!
# Call frame programs

The instructions of a common entry and those of a description become one program of call frame
words. Alignment factors are applied to every operand on the way.
-/

namespace FirmwareDebug.CallFrame

open Read

def CommonEntry.dataOffset (common : CommonEntry) (offset : Int32) : Int32 := offset * common.dataAlignment

def CommonEntry.advance (common : CommonEntry) (delta : UInt32) : FrameWord :=
  .advance (delta * common.codeAlignment)

def unsignedOperand : Read Int32 := do return (← unsigned).toUInt32.toInt32

def signedOperand : Read Int32 := do return (← signed).toInt32

/-- An instruction that takes up a whole opcode; some change nothing. -/
def readExtended (common : CommonEntry) (opcode : UInt8) : Read (Option FrameWord) := do
  match opcode with
  | 0x00 => return none
  | 0x01 => return some (.setLocation (← word))
  | 0x02 => return some (common.advance (← byte).toUInt32)
  | 0x03 => return some (common.advance (← half).toUInt32)
  | 0x04 => return some (common.advance (← word))
  | 0x05 =>
    let register ← unsigned32
    return some (.offset register (common.dataOffset (← unsignedOperand)))
  | 0x06 => return some (.restore (← unsigned32))
  | 0x07 => return some (.undefined (← unsigned32))
  | 0x08 => return some (.sameValue (← unsigned32))
  | 0x09 =>
    let register ← unsigned32
    return some (.copied register (← unsigned32))
  | 0x0a => return some .rememberState
  | 0x0b => return some .restoreState
  | 0x0c =>
    let register ← unsigned32
    return some (.defCfa register (← unsignedOperand))
  | 0x0d => return some (.defCfaRegister (← unsigned32))
  | 0x0e => return some (.defCfaOffset (← unsignedOperand))
  | 0x11 =>
    let register ← unsigned32
    return some (.offset register (common.dataOffset (← signedOperand)))
  | 0x12 =>
    let register ← unsigned32
    return some (.defCfa register (common.dataOffset (← signedOperand)))
  | 0x13 => return some (.defCfaOffset (common.dataOffset (← signedOperand)))
  | 0x14 =>
    let register ← unsigned32
    return some (.valueOffset register (common.dataOffset (← unsignedOperand)))
  | 0x15 =>
    let register ← unsigned32
    return some (.valueOffset register (common.dataOffset (← signedOperand)))
  | 0x2e =>
    discard unsigned
    return none
  | 0x2f =>
    let register ← unsigned32
    return some (.offset register (-common.dataOffset (← unsignedOperand)))
  | opcode => throw (.unsupportedFrameOpcode opcode)

/-- One instruction. Three kinds keep an operand in the low six bits of the opcode. -/
def readWord (common : CommonEntry) : Read (Option FrameWord) := do
  let opcode ← byte
  let low := (opcode &&& 0x3f).toUInt32
  match opcode &&& 0xc0 with
  | 0x40 => return some (common.advance low)
  | 0x80 => return some (.offset low (common.dataOffset (← unsignedOperand)))
  | 0xc0 => return some (.restore low)
  | _ => readExtended common opcode

def words (common : CommonEntry) (instructions : List UInt8) : Except Fault (List FrameWord) := do
  let found ← (Decoded.ofCursor (readWord common) (.place region instructions.toArray 0)).all
  return found.filterMap id

def Table.programOf (table : Table) (d : Description) : Except Fault (Program × UInt32) := do
  let common ← CommonEntry.read table.bytes d.commonEntry
  let initial ← words common common.instructions
  let own ← words common d.instructions
  let all := [.returnAddressRegister common.returnAddressRegister] ++ initial ++ [.initialEnd] ++ own
  return (all.map Word.frame, d.start)

/-- The program for the code at an address, if the code is described. -/
def Table.programAt (table : Table) (address : UInt32) : Except Fault (Option (Program × UInt32)) :=
  match table.descriptionAt address with
  | none => .ok none
  | some d => some <$> table.programOf d

end FirmwareDebug.CallFrame
