import FirmwareDebug.Origin

/-!
# Type graphs

The types that are reachable from an entry, with one node for each entry. A type may contain itself
through a pointer, so nodes refer to each other by their number. An entry that was met before in the
same reading stands for the node that it got then.
-/

namespace FirmwareDebug

/-- The extent of one dimension of an array. -/
inductive ArrayDimension
  | counted (count : UInt32)
  /-- No bound is given. -/
  | flexible
  /-- The bound is kept in the variable at an offset. -/
  | keptIn (offset : UInt32)
  deriving DecidableEq, Repr

/-- What the entry of a type node describes. -/
inductive TypeKind
  | base | typedef | unspecified
  /-- A member, a variable or a parameter. -/
  | object
  | constant | subrange
  | qualifier (word : String)
  | pointer (sigil : String)
  | array
  | subroutine
  /-- A structure, a union or a class. -/
  | aggregate (keyword : String)
  | enumeration
  | other
  deriving DecidableEq, Repr

def TypeKind.ofTag (tag : Tag) : TypeKind :=
  if tag = .baseType then .base
  else if tag = .typedef then .typedef
  else if tag = .unspecifiedType then .unspecified
  else if tag = .member ∨ tag = .dataVariable ∨ tag = .formalParameter then .object
  else if tag = .constant then .constant
  else if tag = .subrangeType then .subrange
  else if tag = .constType then .qualifier "const"
  else if tag = .volatileType then .qualifier "volatile"
  else if tag = .restrictType then .qualifier "restrict"
  else if tag = .atomicType then .qualifier "_Atomic"
  else if tag = .pointerType then .pointer "*"
  else if tag = .referenceType then .pointer "&"
  else if tag = .rvalueReferenceType then .pointer "&&"
  else if tag = .pointerToMemberType then .pointer "::*"
  else if tag = .arrayType then .array
  else if tag = .subroutineType then .subroutine
  else if tag = .structureType then .aggregate "struct"
  else if tag = .unionType then .aggregate "union"
  else if tag = .classType then .aggregate "class"
  else if tag = .enumerationType then .enumeration
  else .other

/-- One node of a type graph. -/
structure TypeNode where
  /-- The entry, without its children. -/
  entry : Entry
  /-- The node of the entry's type. -/
  next : Option Nat := none
  /-- The nodes of the entry's children. -/
  children : List Nat := []
  dimensions : List ArrayDimension := []
  deriving Repr

namespace TypeNode

def offset (node : TypeNode) : UInt32 := node.entry.offset

def tag (node : TypeNode) : Tag := node.entry.tag

def kind (node : TypeNode) : TypeKind := .ofTag node.tag

end TypeNode

abbrev TypeGraph := Array TypeNode

namespace TypeGraph

def kind? (nodes : TypeGraph) (index : Option Nat) : Option TypeKind := do
  return (← nodes[← index]?).kind

def isPointer (nodes : TypeGraph) (index : Option Nat) : Bool :=
  match nodes.kind? index with
  | some (.pointer _) => true
  | _ => false

def isArray (nodes : TypeGraph) (index : Option Nat) : Bool := nodes.kind? index = some .array

def isSubroutine (nodes : TypeGraph) (index : Option Nat) : Bool :=
  nodes.kind? index = some .subroutine

end TypeGraph

/-- The nodes read so far, and the nodes that entries stand for. -/
structure TypeReading where
  nodes : TypeGraph := #[]
  known : List (UInt32 × Nat) := []

/-- A reading of types; what was read before a fault stays. -/
abbrev TypeRead (α : Type) := EStateM Fault TypeReading α

namespace TypeRead

def remember (offset : UInt32) (index : Nat) : TypeRead Unit :=
  modify fun r => { r with known := (offset, index) :: r.known }

/-- Forget which entries stand for nodes; the nodes stay. -/
def forget : TypeRead Unit := modify fun r => { r with known := [] }

def addNode (entry : Entry) : TypeRead Nat := do
  let index := (← get).nodes.size
  modify fun r => { r with nodes := r.nodes.push { entry := entry.bare } }
  remember entry.offset index
  return index

def changeNode (index : Nat) (change : TypeNode → TypeNode) : TypeRead Unit :=
  modify fun r => { r with nodes := r.nodes.modify index change }

end TypeRead

namespace DebugInfo

open TypeRead

/-- The first reference that an entry has by one of some attributes. -/
def firstReference (info : DebugInfo) (offset : UInt32) :
    List AttributeName → Except Fault (Option UInt32)
  | [] => .ok none
  | name :: names => do
    match ← info.reference? offset name with
    | some reference => return some reference
    | none => info.firstReference offset names

def originsTooDeep (offset : UInt32) : Fault := .malformed ".debug_info" offset.toNat .originsTooDeep

/-- The end of a chain of origins and imports that has at most `steps` entries. -/
def definitionFor (info : DebugInfo) (start : UInt32) : (steps : Nat) → UInt32 → Except Fault UInt32
  | 0, _ => .error (originsTooDeep start)
  | steps + 1, offset => do
    match ← info.firstReference offset [.abstractOrigin, .imported, .specification] with
    | none => return offset
    | some next => if next = offset then throw (ownOrigin offset) else info.definitionFor start steps next

def definitionOf (info : DebugInfo) (offset : UInt32) : Except Fault UInt32 :=
  info.definitionFor offset maxOrigins offset

/--
The number of elements that a bound gives, where `last` is 1 for the last index and 0 for a count.
Numbers have 32 bits, so that the last index 0xffffffff is -1 and gives no elements.
-/
def extentOf (value : AttributeValue) (last : UInt32) : ArrayDimension :=
  match value with
  | .signed bound => .counted (UInt32.ofNat (min (bound.toInt + last.toNat).toNat (2 ^ 32 - 1)))
  | .constant bound => .counted (bound.toUInt32 + last)
  | _ => .flexible

def dimensionOf (info : DebugInfo) (subrange : UInt32) : Except Fault ArrayDimension := do
  let unit ← info.unitAt subrange
  let bound ← match ← info.attribute? subrange .upperBound with
    | some value => pure (some (value, (1 : UInt32)))
    | none => do pure ((← info.attribute? subrange .count).map fun value => (value, 0))
  match bound with
  | none => return .flexible
  | some (value, last) =>
    match value.reference? unit.header.offset with
    | some offset => return .keptIn offset
    | none => return extentOf value last

/-- Read a child of a node; a subrange gives the node a dimension too. -/
def readChild (info : DebugInfo) (read : UInt32 → TypeRead Nat) (parent : Nat) (offset : UInt32) :
    TypeRead Unit := do
  let child ← read offset
  changeNode parent fun node => { node with children := node.children ++ [child] }
  if (← get).nodes[child]?.any fun node => node.tag = .subrangeType then
    let dimension ← liftExcept (info.dimensionOf offset)
    changeNode parent fun node => { node with dimensions := node.dimensions ++ [dimension] }

def readNode (info : DebugInfo) (read : UInt32 → TypeRead Nat) (offset : UInt32) : TypeRead Nat := do
  let entry ← liftExcept (info.treeAt offset (some 1))
  let index ← addNode entry
  match ← liftExcept (info.reference? offset .type) with
  | none => pure ()
  | some type =>
    let next ← read type
    changeNode index fun node => { node with next := some next }
  entry.children.forM fun child => info.readChild read index child.offset
  return index

/-- Read the type of an entry; `budget` bounds how deep types lie in each other. -/
def readTypeFor (info : DebugInfo) : (budget : Nat) → UInt32 → TypeRead Nat
  | 0, offset => throw (originsTooDeep offset)
  | budget + 1, offset => do
    match (← get).known.lookup offset with
    | some index => return index
    | none =>
      let definition ← liftExcept (info.definitionOf offset)
      if definition = offset then info.readNode (info.readTypeFor budget) offset
      else
        let index ← info.readTypeFor budget definition
        remember offset index
        return index

/--
Read the type of an entry and all that it needs, and give its node. Every entry gets one node at
most, and at most one step leads from an entry to its definition, so the budget suffices.
-/
def readType (info : DebugInfo) (offset : UInt32) : TypeRead Nat :=
  info.readTypeFor (2 * info.entries.size + 2) offset

/-- Read the type of an entry on its own, behind the nodes that are there. -/
def readTypeAfresh (info : DebugInfo) (offset : UInt32) : TypeRead Nat := do
  forget
  info.readType offset

def typeGraph (info : DebugInfo) (offset : UInt32) : Except Fault TypeGraph :=
  match info.readType offset {} with
  | .ok _ r => .ok r.nodes
  | .error e _ => .error e

end DebugInfo

end FirmwareDebug
