import FirmwareDebug.Entry

/-!
# Origins

An entry may leave attributes to another one: to the entry it is an instance of, or else to the
declaration it completes. A chain of origins is followed for a limited number of steps.
-/

namespace FirmwareDebug.DebugInfo

/-- How many entries of a chain are looked at. -/
def maxOrigins : Nat := 16

def ownOrigin (offset : UInt32) : Fault := .malformed ".debug_info" offset.toNat .ownOrigin

def origin? (info : DebugInfo) (offset : UInt32) : Except Fault (Option UInt32) := do
  match ← info.reference? offset .abstractOrigin with
  | some origin => return some origin
  | none => info.reference? offset .specification

/-- The first attribute with a name on a chain of `steps` entries. -/
def originAttributeFor (info : DebugInfo) (name : AttributeName) :
    (steps : Nat) → UInt32 → Except Fault (Option AttributeValue)
  | 0, _ => .ok none
  | steps + 1, offset => do
    match ← info.attribute? offset name with
    | some value => return some value
    | none =>
      match ← info.origin? offset with
      | none => return none
      | some origin =>
        if origin = offset then throw (ownOrigin offset) else info.originAttributeFor name steps origin

def originAttribute (info : DebugInfo) (offset : UInt32) (name : AttributeName) :
    Except Fault (Option AttributeValue) :=
  info.originAttributeFor name maxOrigins offset

/-- The first entry that is referred to on a chain of `steps` instances. -/
def originReferenceFor (info : DebugInfo) (name : AttributeName) :
    (steps : Nat) → UInt32 → Except Fault (Option UInt32)
  | 0, _ => .ok none
  | steps + 1, offset => do
    match ← info.reference? offset name with
    | some reference => return some reference
    | none =>
      match ← info.reference? offset .abstractOrigin with
      | none => return none
      | some origin => if origin = offset then return none else info.originReferenceFor name steps origin

/-- The first entry that is referred to by an attribute on the chain of an entry's instances. -/
def originReference (info : DebugInfo) (offset : UInt32) (name : AttributeName) :
    Except Fault (Option UInt32) :=
  info.originReferenceFor name maxOrigins offset

def originConstant (info : DebugInfo) (offset : UInt32) (name : AttributeName) :
    Except Fault (Option UInt64) := do
  return (← info.originAttribute offset name).bind AttributeValue.constant?

def nameOf (info : DebugInfo) (offset : UInt32) : Except Fault (Option String) := do
  match ← info.originAttribute offset .name with
  | none => return none
  | some value => info.sections.textOf (← info.unitAt offset).bases value

end FirmwareDebug.DebugInfo
