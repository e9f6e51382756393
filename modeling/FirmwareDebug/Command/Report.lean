import FirmwareDebug.Backtrace
import FirmwareDebug.Command.Arguments
import FirmwareDebug.Command.Folder
import FirmwareDebug.Image

/-!
# What commands write

A command reads its files, asks the debug information and writes lines. Lines that were written
before a fault stay.
-/

namespace FirmwareDebug

open Text

def registerCount : Nat := 16

/-- Why a command could not be finished. -/
inductive CommandFault
  | unreadableImage (path : String) (fault : PathFault)
  | unreadable (path : String) (fault : PathFault)
  | image (path : String) (fault : ImageFault)
  /-- A file with registers that does not hold all of them. -/
  | shortDump (path : String) (size : Nat)
  | frameOutOfRange (frame count : Nat)
  | debug (fault : Fault)
  deriving Repr

def CommandFault.message : CommandFault → String
  | unreadableImage path fault => "Failed to read " ++ path ++ ": " ++ fault.message
  | unreadable path fault => "failed to read " ++ path ++ ": " ++ fault.message
  | image path fault => fault.message path
  | shortDump path size =>
    "register dump " ++ path ++ " holds " ++ toString size ++ " bytes, expected " ++ toString (4 * registerCount)
  | frameOutOfRange frame count =>
    "frame " ++ toString frame ++ " out of range, the stack has " ++ toString count ++ " frames"
  | debug fault => fault.message

abbrev Files := String → Except PathFault Bytes

/-- What was written so far, and what evaluations keep. -/
structure Console where
  output : String := ""
  session : Session := {}

abbrev Report (α : Type) := EStateM CommandFault Console α

namespace Report

def write (text : String) : Report Unit := modify fun c => { c with output := c.output ++ text }

def line (text : String) : Report Unit := write (text ++ "\n")

def ask {α : Type} (answer : Except Fault α) : Report α :=
  match answer with
  | .ok a => return a
  | .error e => throw (.debug e)

def evaluate {α : Type} (evaluation : Evaluation α) : Report α := fun c =>
  match evaluation c.session with
  | .ok a session => .ok a { c with session }
  | .error e session => .error (.debug e) { c with session }

def query {α : Type} (question : Query α) : Report α := evaluate (Evaluation.query question)

def file (files : Files) (path : String) (fault : PathFault → CommandFault) : Report Bytes :=
  match files path with
  | .ok bytes => return bytes
  | .error reason => throw (fault reason)

def load (files : Files) (path : String) : Report (Image × DebugInfo) := do
  let bytes ← file files path (.unreadableImage path)
  match Image.read bytes with
  | .error fault => throw (.image path fault)
  | .ok image => return (image, ← ask (DebugInfo.build image.sections))

/-- The stopped target that files describe; the image gives the memory that never changes. -/
def target (files : Files) (image : Image) (core : CoreFiles) : Report Target := do
  let dump ← file files core.registers (.unreadable core.registers)
  if dump.size < 4 * registerCount then throw (.shortDump core.registers dump.size)
  let ram ← file files core.ram (.unreadable core.ram)
  let registers := (List.range registerCount).map fun i => wordOfBytes (dump.extract (4 * i) (4 * i + 4)).toList
  let flash := image.readOnly.map fun (base, bytes) => ⟨.flash, base, bytes⟩
  let snapshot : Snapshot := { registers := .ofList registers, images := ⟨.ram, core.ramBase, ram⟩ :: flash }
  return snapshot.target

/-! ## Parts of lines -/

def addressText (address : UInt32) : String := "0x" ++ hexWide 8 address.toNat

/-- A place in a source file; a column of zero is not known. -/
def placeText : Option SourceLine → String
  | none => "??"
  | some place =>
    let column := if 0 < place.column then ":" ++ toString place.column.toNat else ""
    place.file ++ ":" ++ toString place.line.toNat ++ column

mutual

def locationText : Location → String
  | .invalid => "<optimized out>"
  | .constant _ => "<constant>"
  | .memory address => "@" ++ addressText address
  | .register number => "r" ++ toString number.toNat
  | .composite pieces => piecesText pieces

def piecesText : List (Location × UInt32) → String
  | [] => ""
  | (location, size) :: rest =>
    locationText location ++ "[" ++ toString size.toNat ++ "]" ++
      (if rest.isEmpty then "" else " ") ++ piecesText rest

end

def indent (depth : Nat) : String := ValueTree.indent depth

mutual

def layoutText (depth : Nat) : Layout → String
  | ⟨shape, members⟩ =>
    let bits :=
      if 0 < shape.bitSize then
        " bits " ++ toString shape.bitPosition.toNat ++ "+" ++ toString shape.bitSize.toNat
      else ""
    indent depth ++ shape.typeText ++ " " ++ ValueTree.label shape.name ++ ": offset " ++
      toString shape.memberOffset.toNat ++ " size " ++ toString shape.size.toNat ++ bits ++ "\n" ++
      layoutsText (depth + 1) members

def layoutsText (depth : Nat) : List Layout → String
  | [] => ""
  | layout :: rest => layoutText depth layout ++ layoutsText depth rest

end

/-! ## Commands -/

def unit (unit : UnitSummary) : Report Unit := do
  let kind := if unit.isTypeUnit then "type unit" else "unit"
  line (addressText unit.header.offset ++ " " ++ kind ++ " v" ++ toString unit.header.version.toNat ++ " " ++
    unit.name.getD "<unnamed>")
  unit.ranges.forM fun range => line ("    [" ++ addressText range.start ++ ", " ++ addressText range.stop ++ ")")
  match unit.producer with
  | some producer => line ("    producer: " ++ producer)
  | none => return

/-- Write the source line of an address and the function that it is in. -/
def sourceLine (info : DebugInfo) (address : UInt32) : Report Unit := do
  let place ← query (info.sourceLineOf address)
  let context ← query (info.contextAt address)
  let function ← match context.function? with
    | some entry => ask (info.nameOf entry.offset)
    | none => pure none
  let middle := if place.any SourceLine.exact then "" else " (mid-line)"
  line (addressText address ++ " " ++ placeText place ++ " in " ++ function.getD "??" ++ middle)

def breakpoints (info : DebugInfo) (file : String) (number : UInt32) : Report Unit := do
  let addresses ← ask (info.addressesOfLine file number)
  if addresses.isEmpty then line ("No code for " ++ file ++ ":" ++ toString number.toNat)
  addresses.forM fun address => line (addressText address)

/-- Write the entries of a context, each deeper than the one before. -/
def scopes (info : DebugInfo) : (depth : Nat) → Context → Report Unit
  | _, [] => return
  | depth, scope :: rest => do
    let name ← ask (info.nameOf scope.offset)
    line (indent depth ++ "<" ++ addressText scope.offset ++ "> " ++ CodeName.tag scope.tag.code ++ " " ++
      name.getD "")
    scopes info (depth + 1) rest

def variableLine (info : DebugInfo) (address : UInt32) (object : DataObject) : Report Unit := do
  let typeText ← match object.type with
    | some type => ask (do info.typeName (← info.typeGraph type) (some 0))
    | none => ask (info.typeName #[] none)
  let program := match info.objectProgram object address with
    | .ok (some program) => Program.text program
    | .ok none => "<optimized out>"
    | .error fault => "<" ++ fault.message ++ ">"
  line ("  " ++ typeText ++ " " ++ object.name.getD "<anonymous>" ++ ": " ++ program)

def context (info : DebugInfo) (address : UInt32) : Report Unit := do
  let found ← query (info.contextAt address)
  if found.isEmpty then line ("No debug information for " ++ addressText address)
  else
    scopes info 0 found
    line "Variables:"
    (← ask (info.localObjects found)).forM (variableLine info address)

def type (info : DebugInfo) (offset : UInt32) : Report Unit := do
  let nodes ← ask (info.typeGraph offset)
  line (← ask (info.typeText nodes 0))
  write (layoutText 0 (← ask (info.layoutOf nodes 0)))

def unwindCode (info : DebugInfo) (address : UInt32) : Report Unit := do
  match ← ask (info.frames.programAt address) with
  | some (program, start) =>
    line ("FDE at " ++ addressText start)
    line (Program.text program)
  | none => line ("No call frame information for " ++ addressText address)

def frame (frame : BacktraceFrame) : Report Unit := do
  frame.inlined.forM fun name => line ("    [inlined] " ++ name)
  let status := if frame.status = .exception then " <exception frame>" else ""
  line ("#" ++ padRight 2 (toString frame.number) ++ " " ++ addressText frame.pc ++ " sp=" ++ addressText frame.sp ++
    " in " ++ frame.function.getD "??" ++ " at " ++ placeText frame.sourceLine ++ status)

def variableValue (info : DebugInfo) (target : Target) (number : Nat) (base : NumericBase)
    (object : DataObject) : Report Unit := do
  let name := object.name.getD ""
  match object.type with
  | none => line ("void " ++ name)
  | some type =>
    let layout ← ask (do info.layoutOf (← info.typeGraph type) 0)
    let (location, bytes) ← evaluate (info.evaluateObject target number object layout.size.toNat)
    write (layout.typeText ++ " " ++ (Layout.tree base { layout with name } bytes).text)
    line ("    (" ++ locationText location ++ ")")

def locals (info : DebugInfo) (target : Target) (maxFrames number : Nat) (base : NumericBase) :
    Report Unit := do
  let frames ← evaluate (info.backtrace target maxFrames)
  if frames.length ≤ number then throw (.frameOutOfRange number frames.length)
  let registers ← ask ((← get).session.registers.frame number)
  let context ← query (info.contextAt (lookupAddress number registers.pc))
  (← ask (info.localObjects context)).forM (variableValue info target number base)

def expressionAttributes : List AttributeName := [.location, .frameBase, .callValue, .gnuCallSiteValue]

/-- The expressions of an entry, with the header of the unit that they belong to. -/
def expressionsOf (info : DebugInfo) (entry : UInt32) : Except Fault (List (UInt32 × List UInt8)) := do
  let found ← ((← info.attributes entry).filter fun a => expressionAttributes.contains a.name).mapM fun a => do
    let unit ← info.unitAt entry
    return (← info.sections.locationsOf unit.bases a.value).map fun e => (unit.header.offset, e.expression)
  return found.flatten

def coverage (info : DebugInfo) : Report Unit := do
  let entries := (info.entries.toList.filter fun e => e.abbreviation.isSome).map IndexedEntry.offset
  let expressions := (← ask (entries.mapM (expressionsOf info))).flatten
  let compiled := expressions.map fun (unit, expression) => Expression.compiledWords info unit expression
  let failed := compiled.countP fun t => !(t.program .diagnostic).isOk
  line (toString expressions.length ++ " location expressions, " ++ toString failed ++ " failed to decode")
  let tally := Expression.Tally.ofCompiled compiled
  if tally.isEmpty then line "All opcodes supported"
  tally.forM fun (opcode, count) =>
    line (padLeft ' ' 6 (toString count) ++ " " ++ CodeName.operation opcode ++ " (0x" ++ hexByte opcode ++ ")")

def run (files : Files) : Command → Report Unit
  | .units image => do (← load files image).2.units.toList.forM unit
  | .line image address => do sourceLine (← load files image).2 address
  | .breakpoints image file number => do breakpoints (← load files image).2 file number
  | .context image address => do context (← load files image).2 address
  | .type image offset => do type (← load files image).2 offset
  | .unwindCode image address => do unwindCode (← load files image).2 address
  | .coverage image => do coverage (← load files image).2
  | .backtrace path core => do
    let (image, info) ← load files path
    let target ← target files image core
    (← evaluate (info.backtrace target core.maxFrames)).forM frame
  | .locals path core number base => do
    let (image, info) ← load files path
    locals info (← target files image core) core.maxFrames number base

end Report

end FirmwareDebug
