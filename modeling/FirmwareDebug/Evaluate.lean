import FirmwareDebug.CallerFrame
import FirmwareDebug.Scope

/-!
# Evaluating locations

Runs location programs against a stopped target. Registers are those of the active frame. The value
that a register had on entry to a function is found at the call: it is what the argument's
expression gives in the caller's frame, and that frame is active only as long as it is needed.

Data that cannot be had does not make an evaluation fail: the location is then invalid.
-/

namespace FirmwareDebug

/-- What evaluations change: the unit found last, and the active frame while they run. -/
structure Session where
  recent : Option Nat := none
  registers : RegisterCache := {}

abbrev Evaluation (α : Type) := EStateM Fault Session α

namespace Evaluation

def query {α : Type} (q : Query α) : Evaluation α := fun s =>
  match q s.recent with
  | .ok a recent => .ok a { s with recent }
  | .error e recent => .error e { s with recent }

def registers : Evaluation RegisterCache := do return (← get).registers

def register (number : UInt32) : Evaluation UInt32 := do liftExcept ((← registers).register number)

/-- Make another frame the active one while something is done. -/
def withFrame {α : Type} (index : Nat) (body : Evaluation α) : Evaluation α := fun s =>
  let leave (inner : Session) : Session :=
    { inner with registers := { inner.registers with active := s.registers.active } }
  match s.registers.setActive index with
  | .error e => .error e s
  | .ok entered =>
    match body { s with registers := entered } with
    | .ok a inner => .ok a (leave inner)
    | .error e inner => .error e (leave inner)

/-- The value, or nothing where data cannot be had. -/
def ifAvailable {α : Type} (body : Evaluation α) : Evaluation (Option α) := fun s =>
  match body s with
  | .ok a s => .ok (some a) s
  | .error e s => if e.isUnavailable then .ok none s else .error e s

end Evaluation

/-- The number of a register in groups of seven bits, which must fill all the bytes. -/
def registerOperand (shift : Nat) (value : UInt32) : List UInt8 → Option UInt32
  | [] => none
  | b :: rest =>
    if 32 ≤ shift then none
    else
      let value := value ||| (b &&& 0x7f).toUInt32 <<< UInt32.ofNat shift
      if b &&& 0x80 = 0 then (if rest.isEmpty then some value else none)
      else registerOperand (shift + 7) value rest

/-- The register that an expression of one register operation names. -/
def entryRegister? : List UInt8 → Option UInt32
  | [] => none
  | opcode :: operand =>
    if operand.isEmpty ∧ 0x50 ≤ opcode ∧ opcode < 0x70 then some (opcode - 0x50).toUInt32
    else if opcode = 0x90 then registerOperand 0 0 operand
    else none

mutual

/-- The bytes of a value; those that cannot be had are missing. -/
def fetch (target : Target) (registers : RegisterCache) (size : Nat) : Location → List (Option UInt8)
  | .invalid => List.replicate size none
  | .constant value => fill size ((wordBytes value).map some)
  | .memory address =>
    match target.readBytes address size with
    | .ok bytes => fill size (bytes.map some)
    | .error _ => List.replicate size none
  | .register number => fill size (registerBytes registers number (max 1 ((size + 3) / 4)))
  | .composite pieces => fill size (fetchPieces target registers pieces)
where
  /-- The first `size` bytes; behind the last one bytes are missing. -/
  fill (size : Nat) (bytes : List (Option UInt8)) : List (Option UInt8) :=
    bytes.take size ++ List.replicate (size - bytes.length) none
  /-- The bytes of registers in a row. -/
  registerBytes (registers : RegisterCache) (number : UInt32) : (count : Nat) → List (Option UInt8)
    | 0 => []
    | count + 1 =>
      (match registers.register number with
        | .ok value => (wordBytes value).map some
        | .error _ => List.replicate 4 none) ++ registerBytes registers (number + 1) count

/-- The bytes of pieces, one after the other. -/
def fetchPieces (target : Target) (registers : RegisterCache) : List (Location × UInt32) → List (Option UInt8)
  | [] => []
  | (location, size) :: rest =>
    fetch target registers size.toNat location ++ fetchPieces target registers rest

end

/-- The address that code at a program counter is looked up at; a caller's one lies behind its call. -/
def lookupAddress (frame : Nat) (pc : UInt32) : UInt32 := if frame = 0 then pc else pc - 1

namespace DebugInfo

open Evaluation

/-- Run a program on a machine, with the machine as it is afterwards. -/
def runOn (host : Host Session) (program : Program) (machine : Machine) :
    Evaluation (Except Fault Unit × Machine) := fun s =>
  match Run.program host program (machine, s) with
  | .ok _ (machine, s) => .ok (.ok (), machine) s
  | .error e (machine, s) => .ok (.error e, machine) s

def frameBaseValue : Location → Evaluation UInt32
  | .register number => register number
  | .constant value => return value
  | .memory address => return address
  | other => throw (.evaluation (.frameBase other))

/-- The frame base, if it can be had, and the machine that computed it. -/
def frameBaseOn (host : Host Session) (machine : Machine) (program : Program) :
    Evaluation (Option UInt32 × Machine) := do
  let (outcome, machine) ← runOn host program machine
  let base ← ifAvailable do
    liftExcept outcome
    frameBaseValue machine.location
  return (base, machine)

def readyMachine (host : Host Session) (cfa : Option UInt32) : Option Program → Evaluation Machine
  | none => return { cfa }
  | some program => do
    let (base, machine) ← frameBaseOn host { cfa } program
    return { machine.reset with frameBase := base }

/-- The place that a location program gives. -/
def locate (host : Host Session) (cfa : Option UInt32) (frameBase : Option Program) (program : Program) :
    Evaluation Location := do
  let location ← ifAvailable do
    let (outcome, machine) ← runOn host program (← readyMachine host cfa frameBase)
    liftExcept outcome
    return machine.location
  return location.getD .invalid

/-- The expression for the value of an argument, if the entry is the argument in the register. -/
def argumentExpression? (info : DebugInfo) (register : UInt32) (parameter : Entry) :
    Except Fault (Option (List UInt8)) := do
  if parameter.tag ≠ .callSiteParameter ∧ parameter.tag ≠ .gnuCallSiteParameter then return none
  let location ← info.attribute? parameter.offset .location
  if (location.bind AttributeValue.block?).bind entryRegister? ≠ some register then return none
  let value ← match ← info.attribute? parameter.offset .callValue with
    | some value => pure (some value)
    | none => info.attribute? parameter.offset .gnuCallSiteValue
  return value.bind AttributeValue.block?

/-- The first argument of a call that is in the register and has an expression. -/
def argumentIn (info : DebugInfo) (register : UInt32) :
    List Entry → Except Fault (Option (UInt32 × List UInt8))
  | [] => .ok none
  | parameter :: rest => do
    match ← info.argumentExpression? register parameter with
    | some expression => return some (parameter.offset, expression)
    | none => info.argumentIn register rest

def callValue (info : DebugInfo) (host : Host Session) (caller : Nat) (returnAddress parameter : UInt32)
    (expression : List UInt8) : Evaluation UInt32 := do
  let unit ← liftExcept (info.unitAt parameter)
  let program ← liftExcept (Expression.compile info .strict unit.header.offset expression)
  let pc := returnAddress - 1
  let context ← query (info.contextAt pc)
  let frameBase ← liftExcept (info.frameBaseProgram context pc)
  let cfa := (← registers).cfa caller
  withFrame caller do
    match ← locate host cfa frameBase program with
    | .constant value => return value
    | .memory address => return address
    | .register number => register number
    | other => throw (.entryValueUnavailable (.callValue other))

/-- The value that a register had when the active frame was called. -/
def entryValueWith (info : DebugInfo) (host : Host Session) (block : List UInt8) : Evaluation UInt32 := do
  match entryRegister? block with
  | none => throw (.entryValueUnavailable (.notARegister block))
  | some number =>
    let cache ← registers
    let caller := cache.active + 1
    let returnAddress := (← liftExcept (cache.frame caller)).pc
    match ← query (info.callReturningTo returnAddress) with
    | none => throw (.entryValueUnavailable (.noCallSite returnAddress))
    | some site =>
      match ← liftExcept (do info.argumentIn number (← info.childrenOf site.offset)) with
      | none => throw (.entryValueUnavailable (.noCallValue site.offset number))
      | some (parameter, expression) => info.callValue host caller returnAddress parameter expression

/-- A register of the active frame, for a program. -/
def hostRegister (number : UInt32) : Evaluation UInt32 :=
  if 16 ≤ number then throw (.registerUnavailable number) else register number

/-- A host on the target. Entry values may need those of callers, `callers` of them at most. -/
def hostFor (info : DebugInfo) (target : Target) : (callers : Nat) → Host Session
  | 0 =>
    { readMemory := fun address length => liftExcept (target.readBytes address length)
      readRegister := hostRegister
      entryValue := fun _ => do throw (.frameUnavailable ((← registers).active + 1)) }
  | callers + 1 =>
    { readMemory := fun address length => liftExcept (target.readBytes address length)
      readRegister := hostRegister
      entryValue := info.entryValueWith (info.hostFor target callers) }

def withHost {α : Type} (info : DebugInfo) (target : Target) (body : Host Session → Evaluation α) :
    Evaluation α := do
  body (info.hostFor target ((← registers).frames.length + 1))

/-- The value that a register had when the active frame was called. -/
def entryValue (info : DebugInfo) (target : Target) (block : List UInt8) : Evaluation UInt32 :=
  info.withHost target fun host => info.entryValueWith host block

def evaluateLocation (info : DebugInfo) (target : Target) (cfa : Option UInt32)
    (frameBase : Option Program) (program : Program) : Evaluation Location :=
  info.withHost target fun host => locate host cfa frameBase program

def evaluateObject (info : DebugInfo) (target : Target) (frame : Nat) (object : DataObject) (size : Nat) :
    Evaluation (Location × List (Option UInt8)) := do
  let cache ← registers
  let pc := lookupAddress frame (← liftExcept (cache.frame frame)).pc
  match ← liftExcept (info.objectProgram object pc) with
  | none => return (.invalid, List.replicate size none)
  | some program =>
    let context ← query (info.contextAt pc)
    let frameBase ← liftExcept (info.frameBaseProgram context pc)
    withFrame frame do
      let location ← info.evaluateLocation target (cache.cfa frame) frameBase program
      return (location, fetch target (← registers) size location)

end DebugInfo

end FirmwareDebug
