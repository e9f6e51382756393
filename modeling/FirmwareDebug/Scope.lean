import FirmwareDebug.Expression.Compile
import FirmwareDebug.Origin

/-!
# Scopes and the objects in them

The context of an address is the row of entries that enclose it, from the root of its unit inwards.
Variables and parameters are looked for there, and so are the calls that return to an address.
-/

namespace FirmwareDebug

/-- The entries that enclose an address, the root of the unit first. -/
abbrev Context := List Entry

/-- A variable or a parameter. -/
structure DataObject where
  name : Option String
  offset : UInt32
  type : Option UInt32
  tag : Tag
  location : Option AttributeValue
  constValue : Option AttributeValue
  deriving DecidableEq, Repr

/-- A function with code. -/
structure Function where
  name : Option String
  offset : UInt32
  low : UInt32
  high : UInt32
  deriving DecidableEq, Repr

namespace Tag

/-- Whether entries with the tag have addresses and variables of their own. -/
def isScope (tag : Tag) : Bool := tag = subprogram || tag = lexicalBlock || tag = inlinedSubroutine

/-- Whether entries with the tag are variables or parameters. -/
def isDataObject (tag : Tag) : Bool := tag = dataVariable || tag = formalParameter

/-- Whether entries with the tag are calls. -/
def isCallSite (tag : Tag) : Bool := tag = callSite || tag = gnuCallSite

end Tag

namespace Context

/-- The functions whose code is inlined at the address, the innermost first. -/
def inlined (context : Context) : List Entry := context.reverse.filter fun e => e.tag = .inlinedSubroutine

def function? (context : Context) : Option Entry := context.find? fun e => e.tag = .subprogram

/-- The scopes of a context from the innermost out, without the root of a compilation. -/
def scopes (context : Context) : List Entry := context.reverse.filter fun e => e.tag ≠ .compileUnit

end Context

namespace DebugInfo

def scopeCovers (info : DebugInfo) (pc : UInt32) (entry : Entry) : Except Fault Bool := do
  if !entry.tag.isScope then return false
  return (← info.addressesOf entry.offset).contains pc

/-- The scopes inside an entry that cover an address; children lie behind their parent. -/
def scopesWithin (info : DebugInfo) (pc : UInt32) : (budget : Nat) → UInt32 → Except Fault Context
  | 0, _ => .ok []
  | budget + 1, offset => do
    match ← (← info.childrenOf offset).findM? (info.scopeCovers pc) with
    | none => return []
    | some scope => return scope :: (← info.scopesWithin pc budget scope.offset)

def contextIn (info : DebugInfo) (unit : UnitSummary) (pc : UInt32) : Except Fault Context := do
  let root ← info.entryAt unit.header.firstEntry
  return root :: (← info.scopesWithin pc (info.entries.size + 1) root.offset)

/-- The context of an address; it is empty where no unit covers the address. -/
def contextAt (info : DebugInfo) (pc : UInt32) : Query Context := do
  match ← info.unitCovering pc with
  | none => return []
  | some unit => liftExcept (info.contextIn unit pc)

/-! ## Calls -/

def returnAddressOf (info : DebugInfo) (site : UInt32) : Except Fault (Option UInt32) := do
  let unit ← info.unitAt site
  let value ← match ← info.attribute? site .callReturnPc with
    | some value => pure (some value)
    | none => info.attribute? site .lowPc
  match value with
  | none => return none
  | some value => info.sections.addressOf unit.bases value

def returnsTo (info : DebugInfo) (address : UInt32) (entry : Entry) : Except Fault Bool := do
  if !entry.tag.isCallSite then return false
  return (← info.returnAddressOf entry.offset) = some address

/-- The first call below a scope that returns to an address. -/
def callBelow (info : DebugInfo) (address : UInt32) (scope : Entry) : Except Fault (Option Entry) := do
  let tree ← info.treeAt scope.offset none
  tree.preorder.tail.findM? (info.returnsTo address)

/-- The first call below one of some scopes that returns to an address. -/
def callBelowAny (info : DebugInfo) (address : UInt32) : List Entry → Except Fault (Option Entry)
  | [] => .ok none
  | scope :: rest => do
    match ← info.callBelow address scope with
    | some site => return some site.bare
    | none => info.callBelowAny address rest

/-- The call that returns to an address, looked for in the scopes of the calling instruction. -/
def callReturningTo (info : DebugInfo) (address : UInt32) : Query (Option Entry) := do
  let context ← info.contextAt (address - 1)
  liftExcept (info.callBelowAny address context.scopes)

/-! ## Objects -/

def dataObject (info : DebugInfo) (entry : Entry) : Except Fault DataObject := do
  let name ← info.nameOf entry.offset
  let type ← info.originReference entry.offset .type
  let location ← info.attribute? entry.offset .location
  let constValue ← info.originAttribute entry.offset .constValue
  return ⟨name, entry.offset, type, entry.tag, location, constValue⟩

def objectsOfScope (info : DebugInfo) (scope : Entry) : Except Fault (List DataObject) := do
  ((← info.childrenOf scope.offset).filter fun child => child.tag.isDataObject).mapM info.dataObject

/-- The variables and parameters of all scopes of a context, the innermost scope first. -/
def localObjects (info : DebugInfo) (context : Context) : Except Fault (List DataObject) := do
  return (← context.scopes.mapM info.objectsOfScope).flatten

def staticObjectsOf (info : DebugInfo) (unit : UnitSummary) : Except Fault (List DataObject) := do
  let root ← info.treeAt unit.header.firstEntry (some 1)
  let objects ← (root.childrenWithTag .dataVariable).mapM info.dataObject
  return objects.filter fun object => object.location.isSome

def staticObjects (info : DebugInfo) : Except Fault (List DataObject) := do
  let units := info.units.toList.filter fun unit => !unit.isTypeUnit
  return (← units.mapM info.staticObjectsOf).flatten

def function? (info : DebugInfo) (offset : UInt32) : Except Fault (Option Function) := do
  let range ← info.addressesOf offset
  match range.lowest?, range.highest? with
  | some low, some high => return some ⟨← info.nameOf offset, offset, low, high⟩
  | _, _ => return none

def functions (info : DebugInfo) : Except Fault (List Function) := do
  let found ← (info.withTag .subprogram).mapM info.function?
  return (found.filterMap id).mergeSort fun a b => a.low ≤ b.low

/-! ## Programs for places -/

/-- The program of a location attribute for an address, if there is a location then. -/
def locationProgram (info : DebugInfo) (offset : UInt32) (value : AttributeValue) (pc : UInt32) :
    Except Fault (Option Program) := do
  let unit ← info.unitAt offset
  match ← info.sections.expressionAt unit.bases value pc with
  | none => return none
  | some expression => some <$> Expression.compile info .strict unit.header.offset expression

/-- The program of the frame base of the function that a context is in. -/
def frameBaseProgram (info : DebugInfo) (context : Context) (pc : UInt32) :
    Except Fault (Option Program) := do
  match context.function? with
  | none => return none
  | some function =>
    match ← info.attribute? function.offset .frameBase with
    | none => return none
    | some value => info.locationProgram function.offset value pc

def constantProgram? : AttributeValue → Option Program
  | .block bytes | .data16 bytes =>
    if bytes.length ≤ 4 then some [.implicitValue (wordOfBytes bytes)] else none
  | value => value.constant?.map fun constant => [.literal constant.toUInt32, .stackValue]

/-- The program for the place of an object at an address; an object without one was optimized out. -/
def objectProgram (info : DebugInfo) (object : DataObject) (pc : UInt32) :
    Except Fault (Option Program) :=
  match object.location with
  | some location => info.locationProgram object.offset location pc
  | none => .ok (object.constValue.bind constantProgram?)

end DebugInfo

end FirmwareDebug
