import FirmwareDebug.Declarator

/-!
# Layouts

Where the parts of a value lie in its bytes: sizes, the places of members and of bit fields, the
dimensions of arrays and the names of enumerations.
-/

namespace FirmwareDebug

/-- What is known about a value apart from its members. -/
structure Shape where
  name : String := ""
  typeText : String := ""
  /-- The size in bytes. -/
  size : UInt32 := 0
  /-- The place in the enclosing aggregate, in bytes. -/
  memberOffset : UInt32 := 0
  /-- The place of a bit field, counted from the lowest bit. -/
  bitPosition : UInt32 := 0
  /-- The number of bits of a bit field; other values have none. -/
  bitSize : UInt32 := 0
  dimensions : List ArrayDimension := []
  encoding : Option BaseEncoding := none
  /-- The names and values of an enumeration. -/
  enumerators : List (String × Int64) := []
  isPointer : Bool := false
  /-- The entry of the type that a pointer points to. -/
  target : Option UInt32 := none
  /-- Whether the size is known only at run time. -/
  isVariableLength : Bool := false
  /-- Whether this is an aggregate that it lies in itself; it has no members then. -/
  isRecursive : Bool := false
  deriving DecidableEq, Repr

/-- How a value is laid out; an array has one member, which stands for all its elements. -/
structure Layout extends Shape where
  members : List Layout := []
  deriving Repr

/-- A product that stays at the largest word when it does not fit. -/
def saturatingProduct (a b : UInt32) : UInt32 := UInt32.ofNat (min (a.toNat * b.toNat) (2 ^ 32 - 1))

/-- A difference that stays at zero when it would be negative. -/
def saturatingDifference (a b : UInt32) : UInt32 := UInt32.ofNat (a.toNat - b.toNat)

namespace Shape

/-- The size of pointers and references where none is given. -/
def pointerSize : UInt32 := 4

/-- How many elements the dimensions of an array give; one without a bound gives none. -/
def elementCount (dimensions : List ArrayDimension) : UInt32 :=
  dimensions.foldl
    (fun count dimension =>
      match dimension with
      | .counted extent => saturatingProduct count extent
      | .flexible => 0
      | .keptIn _ => count) 1

/-- Whether some dimension is known only at run time. -/
def hasKeptBound (dimensions : List ArrayDimension) : Bool :=
  dimensions.any fun dimension => dimension matches .keptIn _

def array (shape : Shape) (dimensions : List ArrayDimension) (elementSize : UInt32) : Shape :=
  let isVariableLength := hasKeptBound dimensions
  { shape with
    dimensions, isVariableLength
    size := if isVariableLength then 0 else saturatingProduct (elementCount dimensions) elementSize }

/-- A bit field whose place counts from the highest bit of `storage` bytes. -/
def placeFromTop (shape : Shape) (storage bitOffset bitSize : UInt32) : Shape :=
  { shape with
    bitPosition := saturatingDifference (saturatingDifference (storage * 8) bitOffset) bitSize
    size := storage }

/-- A bit field whose place counts from the lowest bit of the aggregate, kept in `storage` bytes. -/
def placeFromStart (shape : Shape) (storage bitOffset : UInt32) : Shape :=
  let unitBits := max (storage * 8) 8
  let memberOffset := bitOffset / unitBits * (unitBits / 8)
  { shape with memberOffset, bitPosition := bitOffset - memberOffset * 8, size := storage }

end Shape

namespace DebugInfo

def word? (info : DebugInfo) (offset : UInt32) (name : AttributeName) : Except Fault (Option UInt32) := do
  return (← info.constant? offset name).map UInt64.toUInt32

def byteSize (info : DebugInfo) (offset : UInt32) : Except Fault UInt32 := do
  return (← info.word? offset .byteSize).getD 0

def encoding? (info : DebugInfo) (offset : UInt32) : Except Fault (Option BaseEncoding) := do
  return (← info.constant? offset .encoding).map fun code => ⟨code.toUInt8⟩

/-- The place of a member in a block of one operation that adds a number or gives one. -/
def memberOffsetOf (block : List UInt8) : Except Fault UInt32 :=
  (do
    let opcode ← Read.byte
    if opcode ≠ 0x23 ∧ opcode ≠ 0x10 then Read.malformed (.memberLocation opcode)
    return (← Read.unsigned).toUInt32 : Read UInt32).eval
      (.place "DW_AT_data_member_location" block.toArray 0)

def memberOffset (info : DebugInfo) (offset : UInt32) : Except Fault UInt32 := do
  match ← info.attribute? offset .memberLocation with
  | none => return 0
  | some value =>
    match value.block? with
    | some block => memberOffsetOf block
    | none => return (value.constant?.map UInt64.toUInt32).getD 0

def placeBitField (info : DebugInfo) (member bitSize : UInt32) (shape : Shape) : Except Fault Shape := do
  let shape := { shape with bitSize }
  let storage := (← info.word? member .byteSize).getD shape.size
  match ← info.word? member .bitOffset with
  | some bitOffset => return shape.placeFromTop storage bitOffset bitSize
  | none =>
    match ← info.word? member .dataBitOffset with
    | some bitOffset => return shape.placeFromStart storage bitOffset
    | none => return shape

def placeMember (info : DebugInfo) (member : UInt32) (name : String) (layout : Layout) :
    Except Fault Layout := do
  let memberOffset ← info.memberOffset member
  let shape := { layout.toShape with name, memberOffset }
  match ← info.word? member .bitSize with
  | none => return { layout with toShape := shape }
  | some bitSize => return { layout with toShape := ← info.placeBitField member bitSize shape }

def enumerators (info : DebugInfo) (nodes : TypeGraph) :
    List Nat → Except Fault (List (String × Int64))
  | [] => .ok []
  | child :: rest => do
    match nodes[child]? with
    | none => info.enumerators nodes rest
    | some node =>
      if node.tag = .enumerator then
        let name := (← info.nodeName node).getD ""
        let value := (← info.enumeratorValue node.offset).getD 0
        return (name, value) :: (← info.enumerators nodes rest)
      else info.enumerators nodes rest

def memberLayouts (layout : Nat → Except Fault Layout) (nodes : TypeGraph) :
    List Nat → Except Fault (List Layout)
  | [] => .ok []
  | child :: rest => do
    if nodes[child]?.any fun node => node.tag = .member then
      let member ← layout child
      return member :: (← memberLayouts layout nodes rest)
    else memberLayouts layout nodes rest

/--
The layout of a node, by a way to lay out the nodes that it refers to. `enclosing` are the aggregates
that it lies in.
-/
def nodeLayout (info : DebugInfo) (layout : (enclosing : List Nat) → Option Nat → Except Fault Layout)
    (nodes : TypeGraph) (enclosing : List Nat) (index : Nat) (node : TypeNode) : Except Fault Layout := do
  let name := (← info.nodeName node).getD ""
  let shape : Shape := { typeText := ← info.typeName nodes index }
  match node.kind with
  | .object => info.placeMember node.offset name (← layout enclosing node.next)
  | .typedef | .qualifier _ =>
    return { ← layout enclosing node.next with typeText := shape.typeText, name := "" }
  | .base =>
    let size ← info.byteSize node.offset
    return { shape with size, encoding := ← info.encoding? node.offset }
  | .pointer _ =>
    let size := (← info.word? node.offset .byteSize).getD Shape.pointerSize
    let target := node.next.bind fun next => nodes[next]?.map TypeNode.offset
    return { shape with size, target, isPointer := true }
  | .aggregate _ =>
    let shape := { shape with size := ← info.byteSize node.offset }
    if index ∈ enclosing then
      return { shape with typeText := shape.typeText ++ " " ++ recursionMark, isRecursive := true }
    let member := fun child => layout (index :: enclosing) (some child)
    return { shape with members := ← memberLayouts member nodes node.children }
  | .enumeration =>
    let size ← info.byteSize node.offset
    let encoding := some ((← info.encoding? node.offset).getD .signed)
    return { shape with size, encoding, enumerators := ← info.enumerators nodes node.children }
  | .array =>
    let element ← layout enclosing node.next
    return { shape.array node.dimensions element.size with members := [element] }
  | .subroutine | .unspecified => return { shape with }
  | .constant | .subrange | .other => throw (.unhandledTag node.tag.code)

/-- The layout of a node that lies at most `budget` levels deep. -/
def layoutFor (info : DebugInfo) (nodes : TypeGraph) :
    (budget : Nat) → (enclosing : List Nat) → Option Nat → Except Fault Layout
  | budget, enclosing, index =>
    match index.bind fun index => nodes[index]?.map fun node => (index, node) with
    | none => .ok { typeText := "void" }
    | some (index, node) =>
      match budget with
      | 0 => .error (endlessType node)
      | budget + 1 => info.nodeLayout (info.layoutFor nodes budget) nodes enclosing index node

def layoutOf (info : DebugInfo) (nodes : TypeGraph) (index : Nat) : Except Fault Layout :=
  info.layoutFor nodes (TypeGraph.depth nodes) [] index

end DebugInfo

end FirmwareDebug
