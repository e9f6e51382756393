import FirmwareDebug.DebugInfo

/-!
# Entries and their trees

The tree of an entry is read off the index: an entry with children is followed by them, and a null
entry ends them. Where only some levels are wanted, the rest is passed over.
-/

namespace FirmwareDebug

/-- An entry and as many levels of its children as were asked for. -/
structure Entry where
  tag : Tag
  offset : UInt32
  /-- The place of its abbreviation. -/
  abbreviation : UInt32
  hasChildren : Bool
  children : List Entry
  deriving Repr

namespace Entry

def ofAbbreviation (offset : UInt32) (a : Abbreviation) (children : List Entry) : Entry :=
  ⟨a.tag, offset, a.offset, a.hasChildren, children⟩

def bare (entry : Entry) : Entry := { entry with children := [] }

def childrenWithTag (entry : Entry) (tag : Tag) : List Entry := entry.children.filter fun child => child.tag = tag

mutual

/-- The entries of a tree, each before its children. -/
def preorder : Entry → List Entry
  | ⟨tag, offset, abbreviation, hasChildren, children⟩ =>
    ⟨tag, offset, abbreviation, hasChildren, children⟩ :: preorderOf children

def preorderOf : List Entry → List Entry
  | [] => []
  | entry :: rest => preorder entry ++ preorderOf rest

end

def count (entry : Entry) : Nat := entry.preorder.length

end Entry

namespace DebugInfo

def openChildren (parent : UInt32) : Fault := .malformed ".debug_info" parent.toNat .openChildren

/-- The place behind the null entry that closes `opened + 1` lists of children. -/
def closeAfter (info : DebugInfo) (parent : UInt32) : (budget opened position : Nat) → Except Fault Nat
  | 0, _, _ => .error (openChildren parent)
  | budget + 1, opened, position =>
    match info.entries[position]? with
    | none => .error (openChildren parent)
    | some ⟨_, none⟩ =>
      match opened with
      | 0 => .ok (position + 1)
      | opened + 1 => info.closeAfter parent budget opened (position + 1)
    | some ⟨_, some a⟩ =>
      info.closeAfter parent budget (if a.hasChildren then opened + 1 else opened) (position + 1)

/-- The place of the entry that the sibling attribute names, if it names one further on. -/
def siblingPosition (info : DebugInfo) (entry : UInt32) (a : Abbreviation) (position : Nat) :
    Except Fault (Option Nat) := do
  if !a.has .sibling then return none
  let sibling ← info.reference? entry .sibling
  return (sibling.bind info.position?).filter fun next => position < next

/-- The place behind the children of an entry, which are passed over. -/
def passChildren (info : DebugInfo) (entry : UInt32) (a : Abbreviation) (position : Nat) :
    Except Fault Nat := do
  match ← info.siblingPosition entry a position with
  | some next => return next
  | none => info.closeAfter entry (info.entries.size + 1) 0 (position + 1)

/--
The entries from a place on up to the null entry that ends their list, and the place behind it.
`levels` is how many levels of children they get; none means all.
-/
def childrenFrom (info : DebugInfo) : (budget : Nat) → (parent : UInt32) → (levels : Option Nat) →
    (position : Nat) → Except Fault (List Entry × Nat)
  | 0, parent, _, _ => .error (openChildren parent)
  | budget + 1, parent, levels, position =>
    match info.entries[position]? with
    | none => .error (openChildren parent)
    | some ⟨_, none⟩ => .ok ([], position + 1)
    | some ⟨offset, some a⟩ => do
      let (children, next) ←
        if !a.hasChildren then pure ([], position + 1)
        else match levels with
          | some 0 => do pure ([], ← info.passChildren offset a position)
          | levels => info.childrenFrom budget offset (levels.map (· - 1)) (position + 1)
      let (siblings, last) ← info.childrenFrom budget parent levels next
      return (.ofAbbreviation offset a children :: siblings, last)

/-- The entry at an offset with `levels` levels of children, or all of them. -/
def treeAt (info : DebugInfo) (offset : UInt32) (levels : Option Nat) : Except Fault Entry := do
  let (position, a) ← info.locate offset
  if !a.hasChildren then return .ofAbbreviation offset a []
  match levels with
  | some 0 =>
    discard (info.passChildren offset a position)
    return .ofAbbreviation offset a []
  | levels =>
    let (children, _) ←
      info.childrenFrom (info.entries.size + 1) offset (levels.map (· - 1)) (position + 1)
    return .ofAbbreviation offset a children

def entryAt (info : DebugInfo) (offset : UInt32) : Except Fault Entry := do
  return .ofAbbreviation offset (← info.abbreviation offset) []

def childrenOf (info : DebugInfo) (offset : UInt32) : Except Fault (List Entry) := do
  return (← info.treeAt offset (some 1)).children

end DebugInfo

end FirmwareDebug
