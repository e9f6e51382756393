import FirmwareDebug.Expression.Compile
import FirmwareDebug.Machine

/-!
# Expressions run from their bytes

What an expression means without a program: the operation at a byte is decoded and done, and the run
goes on behind it or at the byte that a branch goes to. `Compilation.lean` shows that the program of
an expression does the same. Faults name operations by the words of the stack machine.
-/

namespace FirmwareDebug.Expression.Direct

open Read Run

/-- What a decoded operation does. -/
inductive Action (σ : Type)
  | effect (run : Run σ Unit)
  /-- Go so many bytes on from behind the operation, if the run says so. -/
  | branch (taken : Run σ Bool) (displacement : Int16)

variable {σ : Type}

/-! ## Cells -/

def unary (word : Word) (f : UInt32 → UInt32) : Run σ Unit := do push (f (← pop word))

def binary (word : Word) (f : UInt32 → UInt32 → UInt32) : Run σ Unit := do
  let top ← pop word
  let second ← pop word
  push (f second top)

/-- Like `binary`, for functions that zero on top has no value of. -/
def divide (word : Word) (obstacle : Obstacle) (f : UInt32 → UInt32 → UInt32) : Run σ Unit := do
  let top ← pop word
  let second ← pop word
  if top = 0 then throw (.evaluation obstacle) else push (f second top)

/-- Push one if the signed cells compare that way, and else zero. -/
def compare (op : Comparison) (holds : Int32 → Int32 → Bool) : Run σ Unit :=
  binary (.compare op) fun second top => if holds second.toInt32 top.toInt32 then 1 else 0

/-- The operations that have no operands and do not branch. -/
def plain? (host : Host σ) : UInt8 → Option (Run σ Unit)
  | 0x06 => some (deref host .deref 4)
  | 0x12 => some (pick .dup 0)
  | 0x13 => some (discard (pop .drop))
  | 0x14 => some (pick .dupSecond 1)
  | 0x16 => some do
    let top ← pop .swap
    let second ← pop .swap
    push top
    push second
  | 0x17 => some do
    let top ← pop .rot
    let second ← pop .rot
    let third ← pop .rot
    push top
    push third
    push second
  | 0x19 => some (unary .abs fun cell => if cell.toInt32 < 0 then 0 - cell else cell)
  | 0x1a => some (binary (.binary .and) fun second top => second &&& top)
  | 0x1b => some (divide (.binary .div) .divisionByZero fun second top =>
      (second.toInt32 / top.toInt32).toUInt32)
  | 0x1c => some (binary (.binary .minus) fun second top => second - top)
  | 0x1d => some (divide (.binary .mod) .moduloByZero fun second top => second % top)
  | 0x1e => some (binary (.binary .mul) fun second top => second * top)
  | 0x1f => some (unary .neg fun cell => 0 - cell)
  | 0x20 => some (unary .not fun cell => ~~~cell)
  | 0x21 => some (binary (.binary .or) fun second top => second ||| top)
  | 0x22 => some (binary (.binary .plus) fun second top => second + top)
  | 0x24 => some (binary (.binary .shl) fun second top => if top < 32 then second <<< top else 0)
  | 0x25 => some (binary (.binary .shr) fun second top => if top < 32 then second >>> top else 0)
  | 0x26 => some (binary (.binary .shra) fun second top =>
      (second.toInt32 >>> (min top 31).toInt32).toUInt32)
  | 0x27 => some (binary (.binary .xor) fun second top => second ^^^ top)
  | 0x29 => some (compare .eq fun second top => second = top)
  | 0x2a => some (compare .ge fun second top => top ≤ second)
  | 0x2b => some (compare .gt fun second top => top < second)
  | 0x2c => some (compare .le fun second top => second ≤ top)
  | 0x2d => some (compare .lt fun second top => second < top)
  | 0x2e => some (compare .ne fun second top => second ≠ top)
  | 0x9c => some do pushOr .cfaUnavailable id (← machine).cfa
  | 0x9f => some (modifyMachine fun m => { m with kind := .value })
  | _ => none

/-! ## Values with a type -/

/-- The size of a base type that fits a cell, and whether it has a sign. -/
def baseType? (info : DebugInfo) (type : UInt32) : Option (UInt8 × Bool) :=
  match info.constant? type .byteSize with
  | .ok (some size) =>
    if size = 0 ∨ 4 < size then none
    else match info.constant? type .encoding with
      | .ok (some encoding) => some (size.toUInt8, encoding = 5 || encoding = 6)
      | _ => some (size.toUInt8, false)
  | _ => none

/-- Change the cell that a run leaves on top to a type of the unit. A type that does not fit refuses it. -/
def thenConvert (info : DebugInfo) (unit type : UInt32) (run : Run σ Unit) : Option (Action σ) :=
  if 2 ^ 32 ≤ unit.toNat + type.toNat then none
  else (baseType? info (unit + type)).map fun (size, signed) => .effect do
    run
    unary (.convert (unit + type) size signed) (convertCell size signed)

/-- The value of a register and an offset. -/
def pushRegister (host : Host σ) (register : UInt32) (offset : Int32) : Run σ Unit := do
  push ((← Run.host (host.readRegister register)) + offset.toUInt32)

/-! ## Decoding -/

/-- An operation that pushes a number. -/
def literal (value : UInt32) : Option (Action σ) := some (.effect (push value))

/-- The operations that push a number which follows. -/
def readLiteral? : UInt8 → Option (Read (Option (Action σ)))
  | 0x03 => some do return literal (← word)
  | 0x08 => some do return literal (← byte).toUInt32
  | 0x09 => some do return literal (← signedByte).toInt32.toUInt32
  | 0x0a => some do return literal (← half).toUInt32
  | 0x0b => some do return literal (← signedHalf).toInt32.toUInt32
  | 0x0c => some do return literal (← word)
  | 0x0d => some do return literal (← word)
  | 0x0e => some do return literal (← long).toUInt32
  | 0x0f => some do return literal (← long).toUInt32
  | 0x10 => some do return literal (← unsigned).toUInt32
  | 0x11 => some do return literal (← signed).toUInt64.toUInt32
  | _ => none

/-- The other operations with operands. -/
def readOperands (info : DebugInfo) (unit : UInt32) (host : Host σ) (opcode : UInt8) :
    Read (Option (Action σ)) := do
  match opcode with
  | 0x15 =>
    let depth ← byte
    return some (.effect (pick (.pick depth) depth.toNat))
  | 0x23 =>
    let value := (← unsigned).toUInt32
    return some (.effect (unary (.binary .plus) fun cell => cell + value))
  | 0x28 =>
    let displacement ← signedHalf
    return some (.branch (do return (← pop .zeroEquals) ≠ 0) displacement)
  | 0x2f =>
    let displacement ← signedHalf
    return some (.branch (pure true) displacement)
  | 0x90 =>
    let register ← unsigned32
    return some (.effect (modifyMachine fun m => { m with register := some register }))
  | 0x91 =>
    let offset ← signed32
    return some (.effect do pushOr .frameBaseUnavailable (fun base => base + offset.toUInt32) (← machine).frameBase)
  | 0x92 =>
    let register ← unsigned32
    let offset ← signed32
    return some (.effect (pushRegister host register offset))
  | 0x93 =>
    let size ← unsigned32
    return some (.effect (modifyMachine fun m => m.closePiece size))
  | 0x94 =>
    let size ← byte
    return if size = 0 ∨ 4 < size then none else some (.effect (deref host (.derefSize size) size))
  | 0x96 => return some (.effect (pure ()))
  | 0x9d =>
    let size ← unsigned32
    let offset ← unsigned
    return if size % 8 = 0 ∧ offset = 0 then
      some (.effect (modifyMachine fun m => m.closePiece (size / 8))) else none
  | 0x9e =>
    let length ← unsigned
    if 4 < length then return none
    let value := wordOfBytes (← bytes length.toNat)
    return some (.effect do
      push value
      modifyMachine fun m => { m with kind := .value })
  | 0xa3 | 0xf3 =>
    let block ← bytes (← unsigned).toNat
    return some (.effect do push (← Run.host (host.entryValue block)))
  | 0xa1 | 0xa2 | 0xfb | 0xfc =>
    let index ← unsigned
    match info.unitWithHeader unit with
    | none => throw (.notAnEntry unit)
    | some summary => return literal (← liftExcept (info.sections.addressAt summary.bases index))
  | 0xa4 | 0xf4 =>
    let type ← unsigned32
    let value ← bytes (← byte).toNat
    return if 4 < value.length then none else thenConvert info unit type (push (wordOfBytes value))
  | 0xa5 | 0xf5 =>
    let register ← unsigned32
    let type ← unsigned32
    return thenConvert info unit type (pushRegister host register 0)
  | 0xa6 | 0xf6 =>
    let size ← byte
    let type ← unsigned32
    return if size = 0 ∨ 4 < size then none
      else thenConvert info unit type (deref host (.derefSize size) size)
  | 0xa8 | 0xa9 | 0xf7 | 0xf9 =>
    let type ← unsigned32
    return if type = 0 then some (.effect (pure ())) else thenConvert info unit type (pure ())
  | _ => return none

/-- The operation with an opcode, unless it is one that cannot be done. -/
def readAction (info : DebugInfo) (unit : UInt32) (host : Host σ) (opcode : UInt8) :
    Read (Option (Action σ)) := do
  if 0x30 ≤ opcode ∧ opcode < 0x50 then return literal (opcode - 0x30).toUInt32
  else if 0x50 ≤ opcode ∧ opcode < 0x70 then
    return some (.effect (modifyMachine fun m => { m with register := some (opcode - 0x50).toUInt32 }))
  else if 0x70 ≤ opcode ∧ opcode < 0x90 then
    let offset ← signed32
    return some (.effect (pushRegister host (opcode - 0x70).toUInt32 offset))
  else match plain? host opcode, readLiteral? opcode with
    | some run, _ => return some (.effect run)
    | none, some read => read
    | none, none => readOperands info unit host opcode

/-! ## Runs -/

/-- The operation at a byte of an expression, and the place behind it. -/
def actionAt (info : DebugInfo) (unit : UInt32) (host : Host σ) (expression : List UInt8)
    (position : Nat) : Except Fault (Action σ × Nat) :=
  let decode : Read (UInt8 × Option (Action σ)) := do
    let opcode ← byte
    return (opcode, ← readAction info unit host opcode)
  match decode (.place region expression.toArray position) with
  | .ok (_, some action) next => .ok (action, next.position)
  | .ok (opcode, none) _ => .error (.unsupportedOpcode opcode position)
  | .error fault _ => .error fault

/-- Do an operation that ends at `behind`; the answer is where the run goes on. -/
def Action.perform (behind : Nat) : Action σ → Run σ Nat
  | .effect run => do
    run
    return behind
  | .branch taken displacement => do
    if ← taken then
      match (behind + displacement.toInt).toNat? with
      | some target => return target
      | none => throw (.negativeBranch displacement)
    else return behind

/-- How a run from a byte on ends: the machine and the host's state, with a fault if there is one. -/
inductive Executes (info : DebugInfo) (unit : UInt32) (host : Host σ) (expression : List UInt8) :
    Nat → Machine × σ → EStateM.Result Fault (Machine × σ) Unit → Prop
  | finished (s : Machine × σ) : Executes info unit host expression expression.length s (.ok () s)
  | undecoded {position : Nat} {fault : Fault} (s : Machine × σ) (inside : position ≠ expression.length)
      (decoded : actionAt info unit host expression position = .error fault) :
      Executes info unit host expression position s (.error fault s)
  | failed {position behind : Nat} {action : Action σ} {fault : Fault} {s s' : Machine × σ}
      (inside : position ≠ expression.length)
      (decoded : actionAt info unit host expression position = .ok (action, behind))
      (performed : action.perform behind s = .error fault s') :
      Executes info unit host expression position s (.error fault s')
  | next {position behind target : Nat} {action : Action σ} {s s' : Machine × σ}
      {result : EStateM.Result Fault (Machine × σ) Unit}
      (inside : position ≠ expression.length)
      (decoded : actionAt info unit host expression position = .ok (action, behind))
      (performed : action.perform behind s = .ok target s')
      (rest : Executes info unit host expression target s' result) :
      Executes info unit host expression position s result

end FirmwareDebug.Expression.Direct
