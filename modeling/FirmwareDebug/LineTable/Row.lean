import FirmwareDebug.LineTable.Instruction

/-!
# Rows of line tables

The instructions of a line program drive a few registers; a row is a copy of them. Two rows in turn
of one sequence bound the addresses that belong to the first.
-/

namespace FirmwareDebug.LineTable

/-- The registers of the line state machine, and one row of the table. -/
structure Row where
  address : UInt32 := 0
  file : UInt32 := 1
  line : UInt32 := 1
  column : UInt32 := 0
  isStatement : Bool
  basicBlock : Bool := false
  endSequence : Bool := false
  prologueEnd : Bool := false
  epilogueBegin : Bool := false
  isa : UInt32 := 0
  discriminator : UInt32 := 0
  deriving DecidableEq, Repr

namespace Row

def initial (header : Header) : Row := { isStatement := header.defaultIsStatement }

/-- The registers after a row was added. -/
def afterRow (row : Row) : Row :=
  { row with basicBlock := false, prologueEnd := false, epilogueBegin := false, discriminator := 0 }

/-- The address `operations` operations further on. -/
def advanceBy (header : Header) (row : Row) (operations : UInt32) : Row :=
  { row with address := row.address + operations * header.minimumInstructionLength.toUInt32 }

/-- The line `lines` lines further on. -/
def advanceLineBy (row : Row) (lines : Int32) : Row := { row with line := row.line + lines.toUInt32 }

end Row

def Header.operationAdvance (header : Header) (opcode : UInt8) : UInt32 :=
  (opcode / header.lineRange).toUInt32

def Header.lineAdvance (header : Header) (opcode : UInt8) : Int32 :=
  header.lineBase.toInt32 + (opcode % header.lineRange).toUInt32.toInt32

/-- The registers after an instruction, and the row it adds if it adds one. -/
def step (header : Header) (row : Row) : Instruction → Row × Option Row
  | .special opcode =>
    let row := (row.advanceBy header (header.operationAdvance opcode)).advanceLineBy
      (header.lineAdvance opcode)
    (row.afterRow, some row)
  | .copy => (row.afterRow, some row)
  | .advancePc operations => (row.advanceBy header operations, none)
  | .advanceLine lines => (row.advanceLineBy lines, none)
  | .setFile file => ({ row with file }, none)
  | .setColumn column => ({ row with column }, none)
  | .negateStatement => ({ row with isStatement := !row.isStatement }, none)
  | .setBasicBlock => ({ row with basicBlock := true }, none)
  | .constAddPc => (row.advanceBy header (header.operationAdvance (255 - header.opcodeBase)), none)
  | .fixedAdvancePc bytes => ({ row with address := row.address + bytes.toUInt32 }, none)
  | .setPrologueEnd => ({ row with prologueEnd := true }, none)
  | .setEpilogueBegin => ({ row with epilogueBegin := true }, none)
  | .setIsa isa => ({ row with isa }, none)
  | .endSequence => (.initial header, some { row with endSequence := true })
  | .setAddress address => ({ row with address }, none)
  | .setDiscriminator discriminator => ({ row with discriminator }, none)
  | .pass => (row, none)

def rowsFrom (header : Header) (row : Row) : List Instruction → List Row
  | [] => []
  | instruction :: rest =>
    match step header row instruction with
    | (next, some added) => added :: rowsFrom header next rest
    | (next, none) => rowsFrom header next rest

/-- Each row with the next one, where both belong to one sequence. -/
def rowPairs : List Row → List (Row × Row)
  | a :: b :: rest => if a.endSequence then rowPairs (b :: rest) else (a, b) :: rowPairs (b :: rest)
  | _ => []

end FirmwareDebug.LineTable
