import FirmwareDebug.Bytes
import FirmwareDebug.UnwindRow

/-!
# The stack machine

Runs programs. Memory, registers and entry values come from a host, which may keep a state of its
own. When a program fails, the machine keeps what the words before the failure did.
-/

namespace FirmwareDebug

/-- Whether the top of the stack is an address or the value itself. -/
inductive ValueKind
  | address | value
  deriving DecidableEq, Repr

/-- The state of the machine. -/
structure Machine where
  /-- Cells, the top one first. -/
  stack : List UInt32 := []
  kind : ValueKind := .address
  /-- The register that holds the value, if one does. -/
  register : Option UInt32 := none
  pieces : List Piece := []
  frameBase : Option UInt32 := none
  cfa : Option UInt32 := none
  /-- The state of call frame words, once the machine is ready for them. -/
  unwinding : Option Unwinding := none

/-- What a program may ask of the world. -/
structure Host (σ : Type) where
  readMemory : UInt32 → Nat → EStateM Fault σ (List UInt8)
  readRegister : UInt32 → EStateM Fault σ UInt32
  /-- The value that a register expression had when the function was entered. -/
  entryValue : List UInt8 → EStateM Fault σ UInt32

/-- A part of a run: it may change the machine and the state of the host. -/
abbrev Run (σ α : Type) := EStateM Fault (Machine × σ) α

namespace Machine

/-- Ready for the call frame program of a function, to stop at the row for the target address. -/
def primed (m : Machine) (start target : UInt32) : Machine :=
  { m with unwinding := some { location := start, target } }

def unwindRow (m : Machine) : UnwindRow := (m.unwinding.map Unwinding.row).getD {}

/-- Forget an expression; frame base, frame address and unwind row stay. -/
def reset (m : Machine) : Machine := { m with stack := [], kind := .address, register := none, pieces := [] }

def topLocation (m : Machine) : Location :=
  match m.stack, m.kind with
  | [], _ => .invalid
  | cell :: _, .value => .constant cell
  | cell :: _, .address => .memory cell

def location (m : Machine) : Location :=
  if m.pieces.isEmpty then
    match m.register with
    | some register => .register register
    | none => m.topLocation
  else .composite m.pieces

/-- Take the top cells off the stack; they come lowest first. -/
def results (m : Machine) (count : Nat) : Except Fault (List UInt32 × Machine) :=
  if m.stack.length < count then .error (.stackUnderflow (.results count))
  else .ok ((m.stack.take count).reverse, { m with stack := m.stack.drop count })

/-- Close a piece: its place is the marked register, or else what the top cell names. -/
def closePiece (m : Machine) (size : UInt32) : Machine :=
  match m.register with
  | some register =>
    { m with pieces := m.pieces ++ [(.register register, size)], register := none, kind := .address }
  | none =>
    { m with pieces := m.pieces ++ [(m.topLocation, size)], stack := m.stack.tail, kind := .address }

end Machine

/-- The result of an operator on the second cell and the top one; no result means division by zero. -/
def BinaryOp.apply (second top : UInt32) : BinaryOp → Except Obstacle UInt32
  | and => .ok (second &&& top)
  | or => .ok (second ||| top)
  | xor => .ok (second ^^^ top)
  | plus => .ok (second + top)
  | minus => .ok (second - top)
  | mul => .ok (second * top)
  | div => if top = 0 then .error .divisionByZero else .ok (second.toInt32 / top.toInt32).toUInt32
  | mod => if top = 0 then .error .moduloByZero else .ok (second % top)
  | shl => .ok (if top < 32 then second <<< top else 0)
  | shr => .ok (if top < 32 then second >>> top else 0)
  | shra => .ok (second.toInt32 >>> (min top 31).toInt32).toUInt32

def Comparison.holds (second top : Int32) : Comparison → Bool
  | eq => second = top
  | ne => second ≠ top
  | lt => second < top
  | le => second ≤ top
  | gt => top < second
  | ge => top ≤ second

/-- One for true and zero for false. -/
def cellOfBool (b : Bool) : UInt32 := if b then 1 else 0

def absoluteCell (cell : UInt32) : UInt32 := if cell.toInt32 < 0 then 0 - cell else cell

/-- A cell cut to a number of bytes, and extended by its sign or by zeros. -/
def convertCell (size : UInt8) (signed : Bool) (cell : UInt32) : UInt32 :=
  if 4 ≤ size then cell
  else
    let unused := 32 - 8 * size.toUInt32
    if signed then ((cell <<< unused).toInt32 >>> unused.toInt32).toUInt32
    else cell &&& ((1 <<< (8 * size.toUInt32)) - 1)

namespace Run

variable {σ : Type}

def host {α : Type} (ask : EStateM Fault σ α) : Run σ α := fun (m, s) =>
  match ask s with
  | .ok a s => .ok a (m, s)
  | .error e s => .error e (m, s)

def machine : Run σ Machine := do return (← get).1

def modifyMachine (f : Machine → Machine) : Run σ Unit := modify fun (m, s) => (f m, s)

def push (cell : UInt32) : Run σ Unit := modifyMachine fun m => { m with stack := cell :: m.stack }

def pop (word : Word) : Run σ UInt32 := do
  match (← machine).stack with
  | [] => throw (.stackUnderflow (.operand word))
  | cell :: stack =>
    modifyMachine fun m => { m with stack }
    return cell

def pick (word : Word) (depth : Nat) : Run σ Unit := do
  match (← machine).stack[depth]? with
  | none => throw (.stackUnderflow (.operand word))
  | some cell => push cell

def deref (host : Host σ) (word : Word) (size : UInt8) : Run σ Unit := do
  let address ← pop word
  let bytes ← Run.host (host.readMemory address size.toNat)
  if bytes.length ≠ size.toNat then throw (.memoryUnavailable address size.toNat)
  push (wordOfBytes bytes)

/-- Put a value on the stack that may be missing. -/
def pushOr (fault : Fault) (f : UInt32 → UInt32) : Option UInt32 → Run σ Unit
  | none => throw fault
  | some value => push (f value)

/-- A call frame word; the answer is whether the program goes on. -/
def stepFrame (word : FrameWord) : Run σ Bool := do
  match (← machine).unwinding with
  | none => throw (.evaluation (.outsideFrameProgram word))
  | some state =>
    match ← liftExcept (state.step word) with
    | none => return false
    | some state =>
      modifyMachine fun m => { m with unwinding := some state }
      return true

/-- Any word that is neither a call frame word nor part of a conditional. -/
def step (host : Host σ) (word : Word) : Run σ Unit := do
  match word with
  | .literal value => push value
  | .dup => pick word 0
  | .drop => discard (pop word)
  | .dupSecond => pick word 1
  | .pick depth => pick word depth.toNat
  | .swap =>
    let top ← pop word
    let second ← pop word
    push top
    push second
  | .rot =>
    let top ← pop word
    let second ← pop word
    let third ← pop word
    push top
    push third
    push second
  | .deref => deref host word 4
  | .derefSize size => deref host word size
  | .abs => push (absoluteCell (← pop word))
  | .neg => push (0 - (← pop word))
  | .not => push (~~~(← pop word))
  | .binary op =>
    let top ← pop word
    let second ← pop word
    match op.apply second top with
    | .ok cell => push cell
    | .error obstacle => throw (.evaluation obstacle)
  | .compare op =>
    let top ← pop word
    let second ← pop word
    push (cellOfBool (op.holds second.toInt32 top.toInt32))
  | .zeroEquals => push (cellOfBool ((← pop word) = 0))
  | .register register => modifyMachine fun m => { m with register := some register }
  | .registerValue register offset => push ((← Run.host (host.readRegister register)) + offset.toUInt32)
  | .frameBase offset => pushOr .frameBaseUnavailable (· + offset.toUInt32) (← machine).frameBase
  | .callFrameCfa => pushOr .cfaUnavailable id (← machine).cfa
  | .stackValue => modifyMachine fun m => { m with kind := .value }
  | .implicitValue value =>
    push value
    modifyMachine fun m => { m with kind := .value }
  | .piece size => modifyMachine fun m => m.closePiece size
  | .entryValue block => push (← Run.host (host.entryValue block))
  | .convert _ size signed => push (convertCell size signed (← pop word))
  | .unsupported opcode => throw (.evaluation (.refusedOpcode opcode))
  | .ifNonzero | .endIf | .frame _ => return

/--
Words from some point of a program on. While words are passed over, `skipped` counts the
conditionals inside the one that is passed over.
-/
def words (host : Host σ) : (skipped : Option Nat) → Program → Run σ Unit
  | none, [] => return
  | some _, [] => throw (.evaluation .openIf)
  | some depth, .ifNonzero :: rest => words host (some (depth + 1)) rest
  | some 0, .endIf :: rest => words host none rest
  | some (depth + 1), .endIf :: rest => words host (some depth) rest
  | some depth, _ :: rest => words host (some depth) rest
  | none, .ifNonzero :: rest => do
    let cell ← pop .ifNonzero
    words host (if cell = 0 then some 0 else none) rest
  | none, .frame word :: rest => do
    if ← stepFrame word then words host none rest
  | none, word :: rest => do
    step host word
    words host none rest

def program (host : Host σ) (program : Program) : Run σ Unit := words host none program

end Run

end FirmwareDebug
