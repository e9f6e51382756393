import FirmwareDebug.TypeGraph

/-!
# Declarators

Types as they are written in C. The text of a type stands around the name that it declares, so it
has a part before the name and one behind it. The body of an aggregate is written once: inside
itself the aggregate is only named, with a mark.
-/

namespace FirmwareDebug

/-- What stands in place of the body of an aggregate that is already open. -/
def recursionMark : String := "<recursive>"

/-- The text of a type around a name. -/
structure Declarator where
  before : String
  behind : String := ""
  deriving DecidableEq, Repr

namespace Declarator

/-- The declaration of a name; no blank follows what binds to it. -/
def around (d : Declarator) (name : String) : String :=
  let rest := name ++ d.behind
  if rest = "" then d.before
  else
    match d.before.toList.getLast? with
    | some '*' | some '(' | some '&' => d.before ++ rest
    | _ => d.before ++ " " ++ rest

def text (d : Declarator) : String := d.around ""

/-- A qualifier of the type itself stands before it, one of a pointer behind the pointer's sign. -/
def qualified (d : Declarator) (word : String) (ofPointer : Bool) : Declarator :=
  { d with before := if ofPointer then d.before ++ " " ++ word else word ++ " " ++ d.before }

/-- A pointer; the sign of one to an array or a function is bracketed. -/
def pointer (d : Declarator) (sigil : String) (bracketed : Bool) : Declarator :=
  if bracketed then ⟨d.before ++ " (" ++ sigil, ")" ++ d.behind⟩ else ⟨d.before ++ " " ++ sigil, d.behind⟩

end Declarator

def ArrayDimension.text : ArrayDimension → String
  | counted count => "[" ++ toString count.toNat ++ "]"
  | flexible => "[]"
  | keptIn _ => "[*]"

/-- The writing of a type; the state holds the nodes whose bodies are open. -/
abbrev Printing (α : Type) := EStateM Fault (List Nat) α

namespace Printing

/-- Write the body of a node, unless it is open already; it is closed in the end, also by a fault. -/
def insideBody {α : Type} (index : Nat) (body : Printing α) : Printing (Option α) := fun opened =>
  if index ∈ opened then .ok none opened
  else
    match body (index :: opened) with
    | .ok a opened => .ok (some a) (opened.erase index)
    | .error e opened => .error e (opened.erase index)

def eval {α : Type} (print : Printing α) : Except Fault α :=
  match print [] with
  | .ok a _ => .ok a
  | .error e _ => .error e

end Printing

/-- A way to write the type of a node, with or without the bodies of aggregates that have names. -/
abbrev TypePrinter := (expand : Bool) → (index : Option Nat) → Printing Declarator

namespace DebugInfo

def nodeName (info : DebugInfo) (node : TypeNode) : Except Fault (Option String) :=
  info.text? node.offset .name

def enumeratorValue (info : DebugInfo) (offset : UInt32) : Except Fault (Option Int64) := do
  return (← info.attribute? offset .constValue).bind AttributeValue.signed?

/-- A parameter in the type of a function; other children of it are not written. -/
def parameterText (print : TypePrinter) (nodes : TypeGraph) (child : Nat) : Printing (Option String) := do
  match nodes[child]?.map TypeNode.tag with
  | some tag =>
    if tag = .formalParameter then return some (← print false child).text
    else if tag = .unspecifiedParameters then return some "..."
    else return none
  | none => return none

/-- The parameters in the type of a function. -/
def parametersText (print : TypePrinter) (nodes : TypeGraph) (children : List Nat) : Printing String := do
  let parameters := (← children.mapM (parameterText print nodes)).filterMap id
  return if parameters.isEmpty then "void" else ", ".intercalate parameters

def memberText (info : DebugInfo) (print : TypePrinter) (expand : Bool) (member : TypeNode) :
    Printing String := do
  let type ← print expand member.next
  let name ← liftExcept (info.nodeName member)
  let line := type.around (name.getD "")
  match ← liftExcept (info.constant? member.offset .bitSize) with
  | some bits => return line ++ " : " ++ toString bits.toNat ++ ";"
  | none => return line ++ ";"

def enumeratorText (info : DebugInfo) (node : TypeNode) : Except Fault String := do
  let name := (← info.nodeName node).getD ""
  match ← info.enumeratorValue node.offset with
  | some value => return name ++ " = " ++ toString value.toInt ++ ","
  | none => return name ++ ","

/-- One line of a body; children that are neither members nor enumerators are not written. -/
def bodyLine (info : DebugInfo) (print : TypePrinter) (nodes : TypeGraph) (expand : Bool) (child : Nat) :
    Printing (Option String) := do
  match nodes[child]? with
  | some node =>
    if node.tag = .member ∨ node.tag = .dataVariable then return some (← info.memberText print expand node)
    else if node.tag = .enumerator then return some (← liftExcept (info.enumeratorText node))
    else return none
  | none => return none

def bodyText (info : DebugInfo) (print : TypePrinter) (nodes : TypeGraph) (expand : Bool)
    (children : List Nat) : Printing String := do
  let lines := (← children.mapM (info.bodyLine print nodes expand)).filterMap id
  return if lines.isEmpty then "\x7b \x7d" else "\x7b " ++ " ".intercalate lines ++ " \x7d"

/-- An aggregate; one with a name has its body only where bodies are asked for. -/
def aggregateText (info : DebugInfo) (print : TypePrinter) (nodes : TypeGraph) (expand : Bool)
    (keyword : String) (index : Nat) (node : TypeNode) : Printing String := do
  let name ← liftExcept (info.nodeName node)
  let head := match name with
    | some name => keyword ++ " " ++ name
    | none => keyword
  if name.isSome ∧ !expand then return head
  match ← Printing.insideBody index (info.bodyText print nodes expand node.children) with
  | some body => return head ++ " " ++ body
  | none => return head ++ " " ++ recursionMark

/-- The text of a node, by a way to write the nodes that it refers to. -/
def nodeDeclarator (info : DebugInfo) (print : TypePrinter) (nodes : TypeGraph) (expand : Bool)
    (index : Nat) (node : TypeNode) : Printing Declarator := do
  match node.kind with
  | .base | .typedef | .unspecified => return ⟨(← liftExcept (info.nodeName node)).getD "void", ""⟩
  | .object | .constant | .subrange => print expand node.next
  | .qualifier word => return (← print expand node.next).qualified word (nodes.isPointer node.next)
  | .pointer sigil =>
    let bracketed := nodes.isArray node.next || nodes.isSubroutine node.next
    return (← print expand node.next).pointer sigil bracketed
  | .array =>
    let element ← print expand node.next
    return { element with behind := String.join (node.dimensions.map ArrayDimension.text) ++ element.behind }
  | .subroutine =>
    let result ← print expand node.next
    let parameters ← parametersText print nodes node.children
    return { result with behind := "(" ++ parameters ++ ")" ++ result.behind }
  | .aggregate keyword => return ⟨← info.aggregateText print nodes expand keyword index node, ""⟩
  | .enumeration => return ⟨← info.aggregateText print nodes expand "enum" index node, ""⟩
  | .other => throw (.unhandledTag node.tag.code)

def endlessType (node : TypeNode) : Fault := .malformed ".debug_info" node.offset.toNat .endlessType

/-- The text of the type of a node, which may lie `budget` levels deep. -/
def declaratorFor (info : DebugInfo) (nodes : TypeGraph) : (budget : Nat) → TypePrinter
  | budget, expand, index =>
    match index.bind fun index => nodes[index]?.map fun node => (index, node) with
    | none => return ⟨"void", ""⟩
    | some (index, node) =>
      match budget with
      | 0 => throw (endlessType node)
      | budget + 1 => info.nodeDeclarator (info.declaratorFor nodes budget) nodes expand index node

/--
How deep the text of a type can go: no node comes twice between two bodies that are opened, and no
body is opened inside itself.
-/
def TypeGraph.depth (nodes : TypeGraph) : Nat := (nodes.size + 1) * (nodes.size + 1)

def declarator (info : DebugInfo) (nodes : TypeGraph) (expand : Bool) (index : Option Nat) :
    Printing Declarator :=
  info.declaratorFor nodes (TypeGraph.depth nodes) expand index

def typeText (info : DebugInfo) (nodes : TypeGraph) (index : Nat) : Except Fault String := do
  return (← (info.declarator nodes true index).eval).text

/-- The type of a node; aggregates that have names are only named. -/
def typeName (info : DebugInfo) (nodes : TypeGraph) (index : Option Nat) : Except Fault String := do
  return (← (info.declarator nodes false index).eval).text

end DebugInfo

end FirmwareDebug
