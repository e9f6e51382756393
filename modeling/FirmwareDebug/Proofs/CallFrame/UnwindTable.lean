import FirmwareDebug.CallFrame.Program
import FirmwareDebug.CallerFrame

/-!
# The unwind table

What call frame instructions mean without a program: a table with a row for each stretch of code and a
rule in it for every register. Locations and offsets are whole numbers here, and only an address of
the target is cut to a word. `Refinement.lean` shows that the machine finds the caller that the table
prescribes.
-/

namespace FirmwareDebug.CallFrame

open Read

/-! ## Instructions -/

/-- How the table finds a register of the caller. -/
inductive Rule
  | undefined
  /-- The function did not change it. -/
  | sameValue
  /-- Saved at the frame address plus an offset. -/
  | saved (offset : Int)
  /-- The frame address plus an offset. -/
  | value (offset : Int)
  /-- Held in another register. -/
  | copied (source : UInt32)
  deriving DecidableEq, Repr

/-- One instruction. Its alignment factor is applied. -/
inductive Instruction
  | nop
  | advance (delta : Nat)
  | moveTo (address : Nat)
  | cfa (register : UInt32) (offset : Int)
  | cfaRegister (register : UInt32)
  | cfaOffset (offset : Int)
  | rule (register : UInt32) (rule : Rule)
  | restore (register : UInt32)
  | remember
  | restoreState
  /-- Not written in bytes: it stands where the common instructions end. -/
  | commonEnd
  deriving DecidableEq, Repr

/-- An unsigned operand. -/
def readUnsigned : Read Int := do return (← unsigned).toNat

/-- A signed operand. -/
def readSigned : Read Int := do return (← signed).toInt

/-- A rule for the register that comes first. -/
def readRule (rule : Read Rule) : Read Instruction := do
  let register ← unsigned32
  return .rule register (← rule)

/-- The instruction with an opcode that holds no operand. -/
def readLong (code : Nat) (data : Int) (opcode : UInt8) : Read Instruction := do
  match opcode with
  | 0x00 => return .nop
  | 0x01 => return .moveTo (← word).toNat
  | 0x02 => return .advance ((← byte).toNat * code)
  | 0x03 => return .advance ((← half).toNat * code)
  | 0x04 => return .advance ((← word).toNat * code)
  | 0x05 => readRule do return .saved ((← readUnsigned) * data)
  | 0x06 => return .restore (← unsigned32)
  | 0x07 => readRule do return .undefined
  | 0x08 => readRule do return .sameValue
  | 0x09 => readRule do return .copied (← unsigned32)
  | 0x0a => return .remember
  | 0x0b => return .restoreState
  | 0x0c =>
    let register ← unsigned32
    return .cfa register (← readUnsigned)
  | 0x0d => return .cfaRegister (← unsigned32)
  | 0x0e => return .cfaOffset (← readUnsigned)
  | 0x11 => readRule do return .saved ((← readSigned) * data)
  | 0x12 =>
    let register ← unsigned32
    return .cfa register ((← readSigned) * data)
  | 0x13 => return .cfaOffset ((← readSigned) * data)
  | 0x14 => readRule do return .value ((← readUnsigned) * data)
  | 0x15 => readRule do return .value ((← readSigned) * data)
  | 0x2e =>
    discard unsigned
    return .nop
  | 0x2f => readRule do return .saved (-((← readUnsigned) * data))
  | _ => throw (.unsupportedFrameOpcode opcode)

/-- The next instruction, under two alignment factors. -/
def readInstruction (code : Nat) (data : Int) : Read Instruction := do
  let opcode ← byte
  let low := (opcode &&& 0x3f).toUInt32
  if opcode &&& 0xc0 = 0x40 then return .advance (low.toNat * code)
  else if opcode &&& 0xc0 = 0x80 then return .rule low (.saved ((← readUnsigned) * data))
  else if opcode &&& 0xc0 = 0xc0 then return .restore low
  else readLong code data opcode

/-- All instructions from a byte to the end. -/
inductive Instructions (code : Nat) (data : Int) (bytes : List UInt8) : Nat → List Instruction → Prop
  | finished : Instructions code data bytes bytes.length []
  | next {position : Nat} {instruction : Instruction} {after : Cursor} {rest : List Instruction}
      (inside : position < bytes.length)
      (decoded : readInstruction code data (.place region bytes.toArray position) = .ok instruction after)
      (others : Instructions code data bytes after.position rest) :
      Instructions code data bytes position (instruction :: rest)

/-! ## Rows -/

/-- The rules in force from some location on: the frame address, and every register. -/
structure TableRow where
  cfa : Option (UInt32 × Int) := none
  /-- At first the core registers keep their values. -/
  rules : UInt32 → Rule := fun register => if register < 16 then .sameValue else .undefined

/-- A table of which the last row is still being made. -/
structure TableState where
  /-- The rows before, each with the location where it starts. -/
  finished : List (Nat × TableRow) := []
  location : Nat
  row : TableRow := {}
  /-- The row of the common instructions, once they have ended. -/
  common : Option TableRow := none
  remembered : List TableRow := []

namespace TableState

/-- A new row at a location, with the rules there are. -/
def startRow (state : TableState) (location : Nat) : TableState :=
  { state with finished := state.finished ++ [(state.location, state.row)], location }

/-- Change the rule for a register. -/
def setRule (state : TableState) (register : UInt32) (rule : Rule) : TableState :=
  { state with row.rules := fun r => if r = register then rule else state.row.rules r }

/-- The table after one more instruction; a row cannot be recalled if none is remembered. -/
def step (state : TableState) : Instruction → Option TableState
  | .nop => some state
  | .advance delta => some (state.startRow (state.location + delta))
  | .moveTo address => some (state.startRow address)
  | .cfa register offset => some { state with row.cfa := some (register, offset) }
  | .cfaRegister register =>
    some { state with row.cfa := some (register, (state.row.cfa.map Prod.snd).getD 0) }
  | .cfaOffset offset =>
    some { state with row.cfa := some ((state.row.cfa.map Prod.fst).getD RegisterFrame.spNumber, offset) }
  | .rule register rule => some (state.setRule register rule)
  | .restore register => some (state.setRule register ((state.common.getD {}).rules register))
  | .remember => some { state with remembered := state.row :: state.remembered }
  | .restoreState =>
    match state.remembered with
    | [] => none
    | row :: remembered => some { state with row, remembered }
  | .commonEnd => some { state with common := some state.row }

/-- The table after instructions. -/
def run (state : TableState) : List Instruction → Option TableState
  | [] => some state
  | instruction :: rest => (state.step instruction).bind fun next => next.run rest

/-- All rows. -/
def rows (state : TableState) : List (Nat × TableRow) := state.finished ++ [(state.location, state.row)]

end TableState

/-- The rows of a description under its common entry. -/
def IsTable (common : CommonEntry) (d : Description) (rows : List (Nat × TableRow)) : Prop :=
  ∃ initial own state,
    Instructions common.codeAlignment.toNat common.dataAlignment.toInt common.instructions 0 initial ∧
    Instructions common.codeAlignment.toNat common.dataAlignment.toInt d.instructions 0 own ∧
    TableState.run { location := d.start.toNat } (initial ++ .commonEnd :: own) = some state ∧
    rows = state.rows

/-- Locations never decrease, and all are addresses. -/
def Ordered (rows : List (Nat × TableRow)) : Prop :=
  rows.Pairwise (fun a b => a.1 ≤ b.1) ∧ ∀ row ∈ rows, row.1 < 2 ^ 32

/-- The last row that starts at or before an address. -/
def rowAt (rows : List (Nat × TableRow)) (address : Nat) : Option TableRow :=
  ((rows.filter fun row => row.1 ≤ address).getLast?).map Prod.snd

/-! ## The caller -/

/-- An address so many bytes on, around the end of memory. -/
def offsetBy (address : UInt32) (offset : Int) : UInt32 := UInt32.ofInt (address.toNat + offset)

/-- A register of the caller by its rule, from the registers and the memory of the function it called. -/
def recovered (frame : RegisterFrame) (target : Target) (cfa register : UInt32) :
    Rule → Except Fault UInt32
  | .undefined | .sameValue => frame.get? register
  | .saved offset => target.readWord (offsetBy cfa offset)
  | .value offset => .ok (offsetBy cfa offset)
  | .copied source => frame.get? source

/-- What a row says of the caller, if `returnAddress` is the register that holds the return address. -/
inductive Prescribes (frame : RegisterFrame) (target : Target) (returnAddress : UInt32) (row : TableRow) :
    Except Fault (Option RegisterFrame) → Prop
  | noCfa (undefined : row.cfa = none) : Prescribes frame target returnAddress row (.ok none)
  | outermost (undefined : row.rules returnAddress = .undefined) :
      Prescribes frame target returnAddress row (.ok none)
  | noBase {register : UInt32} {offset : Int} {fault : Fault}
      (hcfa : row.cfa = some (register, offset)) (defined : row.rules returnAddress ≠ .undefined)
      (hbase : frame.get? register = .error fault) : Prescribes frame target returnAddress row (.error fault)
  /-- The first register that cannot be had. -/
  | lost {register base : UInt32} {offset : Int} {fault : Fault} (i : Fin 16)
      (hcfa : row.cfa = some (register, offset)) (defined : row.rules returnAddress ≠ .undefined)
      (hbase : frame.get? register = .ok base)
      (hbefore : ∀ j < i, ∃ value, recovered frame target (offsetBy base offset) (UInt32.ofNat j)
        (row.rules (UInt32.ofNat j)) = .ok value)
      (hfault : recovered frame target (offsetBy base offset) (UInt32.ofNat i)
        (row.rules (UInt32.ofNat i)) = .error fault) :
      Prescribes frame target returnAddress row (.error fault)
  | caller {register base address : UInt32} {offset : Int} {values : RegisterFrame}
      (hcfa : row.cfa = some (register, offset)) (defined : row.rules returnAddress ≠ .undefined)
      (hbase : frame.get? register = .ok base)
      (hvalues : ∀ i : Fin 16, recovered frame target (offsetBy base offset) (UInt32.ofNat i)
        (row.rules (UInt32.ofNat i)) = .ok values[i])
      (hreturn : recovered frame target (offsetBy base offset) returnAddress
        (row.rules returnAddress) = .ok address) :
      Prescribes frame target returnAddress row
        (.ok (some ((values.set 13 (offsetBy base offset)).set 15 (address &&& ~~~1))))

end FirmwareDebug.CallFrame
