import FirmwareDebug.Proofs.Keeps
import FirmwareDebug.Value

/-!
# What a layout is made of

The layout of a node by the kind of its entry: where there is one, these are its parts. A layout without members
is shown as one text, one with members as a part for each of them.
-/

namespace FirmwareDebug

/-! ## How a layout is shown -/

/-- One number and nothing else: no array, no pointer and no mark in its place. -/
structure Shape.IsScalar (shape : Shape) : Prop where
  fixed : shape.isVariableLength = false
  entered : shape.isRecursive = false
  single : shape.dimensions = []
  direct : shape.isPointer = false
  encoded : shape.encoding.isSome

namespace Layout

variable {base : NumericBase} {bytes : PartialBytes}

theorem value_of_isScalar {shape : Shape} (h : shape.IsScalar) :
    (tree base ⟨shape, []⟩ bytes).value = some (shape.scalarText base bytes) := by
  obtain ⟨encoding, hencoding⟩ := Option.isSome_iff_exists.mp h.encoded
  simp [tree, h.fixed, h.entered, h.single, h.direct, Shape.leafText, hencoding]

theorem parts_of_members {shape : Shape} {members : List Layout} (hfixed : shape.isVariableLength = false)
    (hentered : shape.isRecursive = false) (hsingle : shape.dimensions = []) (hdirect : shape.isPointer = false)
    (hmembers : members ≠ []) : (tree base ⟨shape, members⟩ bytes).parts = memberTrees base members bytes := by
  simp [tree, hfixed, hentered, hsingle, hdirect, hmembers]

@[simp]
theorem getElem?_memberTrees (members : List Layout) (k : Nat) :
    (memberTrees base members bytes)[k]? =
      members[k]?.map fun member => tree base member (bytes.slice member.memberOffset.toNat member.size.toNat) := by
  induction members generalizing k with
  | nil => simp [memberTrees]
  | cons member rest ih =>
    cases k with
    | zero => simp [memberTrees]
    | succ k => simpa [memberTrees] using ih k

end Layout

/-! ## The parts of a layout -/

namespace DebugInfo

variable {info : DebugInfo} {nodes : TypeGraph} {inner : List Nat → Option Nat → Except Fault Layout}
  {enclosing : List Nat} {index budget : Nat} {node : TypeNode} {layout : Layout}

theorem nodeLayout_of_layoutFor (hnode : nodes[index]? = some node)
    (h : info.layoutFor nodes budget enclosing (some index) = .ok layout) :
    ∃ rest, info.nodeLayout (info.layoutFor nodes rest) nodes enclosing index node = .ok layout := by
  have hfound : ((some index).bind fun index => nodes[index]?.map fun node => (index, node)) =
      some (index, node) := by
    rw [Option.bind_some, hnode, Option.map_some]
  cases budget with
  | zero =>
    rw [layoutFor, hfound] at h
    cases h
  | succ rest =>
    rw [layoutFor, hfound] at h
    exact ⟨rest, h⟩

theorem nodeLayout_enumeration (hkind : node.kind = .enumeration)
    (h : info.nodeLayout inner nodes enclosing index node = .ok layout) :
    ∃ typeText size encoding enumerators, info.byteSize node.offset = .ok size ∧
      info.encoding? node.offset = .ok encoding ∧ info.enumerators nodes node.children = .ok enumerators ∧
      layout = { typeText, size, encoding := some (encoding.getD .signed), enumerators } := by
  simp only [nodeLayout, hkind, bind_eq_ok_iff, pure_eq_ok_iff] at h
  obtain ⟨_, -, typeText, -, size, hsize, encoding, hencoding, enumerators, henumerators, rfl⟩ := h
  exact ⟨typeText, size, encoding, enumerators, hsize, hencoding, henumerators, rfl⟩

theorem nodeLayout_base (hkind : node.kind = .base)
    (h : info.nodeLayout inner nodes enclosing index node = .ok layout) :
    ∃ typeText size encoding, info.byteSize node.offset = .ok size ∧ info.encoding? node.offset = .ok encoding ∧
      layout = { typeText, size, encoding } := by
  simp only [nodeLayout, hkind, bind_eq_ok_iff, pure_eq_ok_iff] at h
  obtain ⟨_, -, typeText, -, size, hsize, encoding, hencoding, rfl⟩ := h
  exact ⟨typeText, size, encoding, hsize, hencoding, rfl⟩

theorem nodeLayout_named (hkind : node.kind = .typedef ∨ ∃ word, node.kind = .qualifier word)
    (h : info.nodeLayout inner nodes enclosing index node = .ok layout) :
    ∃ typeText own, inner enclosing node.next = .ok own ∧ layout = { own with typeText, name := "" } := by
  rcases hkind with hkind | ⟨word, hkind⟩ <;>
  · simp only [nodeLayout, hkind, bind_eq_ok_iff, pure_eq_ok_iff] at h
    obtain ⟨_, -, typeText, -, own, hown, rfl⟩ := h
    exact ⟨typeText, own, hown, rfl⟩

theorem nodeLayout_object (hkind : node.kind = .object)
    (h : info.nodeLayout inner nodes enclosing index node = .ok layout) :
    ∃ name own, inner enclosing node.next = .ok own ∧ info.placeMember node.offset name own = .ok layout := by
  simp only [nodeLayout, hkind, bind_eq_ok_iff] at h
  obtain ⟨name, -, _, -, own, hown, h⟩ := h
  exact ⟨name.getD "", own, hown, h⟩

/-- Whether a child is a member. -/
def isMember (nodes : TypeGraph) (child : Nat) : Bool := nodes[child]?.any fun node => node.tag = .member

theorem memberLayouts_eq (own : Nat → Except Fault Layout) (children : List Nat) :
    memberLayouts own nodes children = (children.filter (isMember nodes)).mapM own := by
  induction children with
  | nil => rfl
  | cons child rest ih =>
    rw [List.filter_cons]
    show (if isMember nodes child then _ else _) = _
    by_cases hmember : isMember nodes child
    · rw [if_pos hmember, if_pos hmember, List.mapM_cons, ih]
    · rw [if_neg hmember, if_neg hmember, ih]

theorem getElem?_of_forall₂ {α β : Type} {R : α → β → Prop} {l : List α} {values : List β}
    (h : List.Forall₂ R l values) {k : Nat} {a : α} (ha : l[k]? = some a) : ∃ b, values[k]? = some b ∧ R a b := by
  obtain ⟨hk, rfl⟩ := List.getElem?_eq_some_iff.mp ha
  have hk' : k < values.length := h.length_eq ▸ hk
  exact ⟨values[k], List.getElem?_eq_getElem hk', h.get hk hk'⟩

theorem nodeLayout_aggregate {keyword : String} (hkind : node.kind = .aggregate keyword) (hnew : index ∉ enclosing)
    (h : info.nodeLayout inner nodes enclosing index node = .ok layout) :
    ∃ typeText size members, info.byteSize node.offset = .ok size ∧
      List.Forall₂ (fun child member => inner (index :: enclosing) (some child) = .ok member)
        (node.children.filter (isMember nodes)) members ∧
      layout = { typeText, size, members } := by
  simp only [nodeLayout, hkind, if_neg hnew, memberLayouts_eq, bind_eq_ok_iff, pure_eq_ok_iff] at h
  obtain ⟨_, -, typeText, -, size, hsize, members, hmembers, rfl⟩ := h
  exact ⟨typeText, size, members, hsize, mapM_eq_ok_iff.mp hmembers, rfl⟩

end DebugInfo

end FirmwareDebug
