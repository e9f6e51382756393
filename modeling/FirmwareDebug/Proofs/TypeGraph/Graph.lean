import FirmwareDebug.Proofs.TypeGraph.Recursion
import Mathlib.Data.Option.Basic

/-!
# What a type graph is

Nodes are added while others are half read: a node that is being read gets its type and its children
one by one, and the types read for it add nodes of their own. `Progress` says what a reading leaves
behind: the nodes that were there stay as they are, except the one it is read for, and every new node is
finished.
-/

namespace FirmwareDebug

/-- A node with one more child, and with the dimensions that the child gives it. -/
def TypeNode.addChild (index : Nat) (dimensions : List ArrayDimension) (node : TypeNode) : TypeNode :=
  { node with children := node.children ++ [index], dimensions := node.dimensions ++ dimensions }

namespace DebugInfo

open TypeRead

variable {info : DebugInfo} {read : UInt32 → TypeRead Nat} {offset : UInt32} {r r' r'' : TypeReading}
  {nodes nodes' : TypeGraph}

/-- The node is the one of the entry at the end of the origins of an entry. -/
def StandsFor (info : DebugInfo) (nodes : TypeGraph) (offset : UInt32) (index : Nat) : Prop :=
  ∃ node, nodes[index]? = some node ∧ info.definitionOf offset = .ok node.offset

/-- The nodes that children are read as, in order, and the dimensions of those that are subranges. -/
inductive ChildrenRead (info : DebugInfo) (nodes : TypeGraph) :
    List Entry → List Nat → List ArrayDimension → Prop
  | nil : ChildrenRead info nodes [] [] []
  | subrange {child : Entry} {index : Nat} {node : TypeNode} {dimension : ArrayDimension}
      {children indices dimensions} (hnode : nodes[index]? = some node)
      (hdefinition : info.definitionOf child.offset = .ok node.offset)
      (htag : node.tag = .subrangeType) (hdimension : info.dimensionOf child.offset = .ok dimension)
      (rest : ChildrenRead info nodes children indices dimensions) :
      ChildrenRead info nodes (child :: children) (index :: indices) (dimension :: dimensions)
  | other {child : Entry} {index : Nat} {node : TypeNode} {children indices dimensions}
      (hnode : nodes[index]? = some node) (hdefinition : info.definitionOf child.offset = .ok node.offset)
      (htag : node.tag ≠ .subrangeType) (rest : ChildrenRead info nodes children indices dimensions) :
      ChildrenRead info nodes (child :: children) (index :: indices) dimensions

/-- The node has the type that its entry refers to, if it does, and its entry's children. -/
structure Finished (info : DebugInfo) (nodes : TypeGraph) (node : TypeNode) : Prop where
  next : ∃ type, info.reference? node.offset .type = .ok type ∧ Option.Rel (StandsFor info nodes) type node.next
  children : ∃ tree, info.treeAt node.offset (some 1) = .ok tree ∧ node.entry = tree.bare ∧
    ChildrenRead info nodes tree.children node.children node.dimensions

/-- A graph of the type of an entry. -/
structure IsTypeGraph (info : DebugInfo) (offset : UInt32) (nodes : TypeGraph) : Prop where
  root : StandsFor info nodes offset 0
  next_lt : ∀ node ∈ nodes, ∀ index ∈ node.next, index < nodes.size
  child_lt : ∀ node ∈ nodes, ∀ index ∈ node.children, index < nodes.size
  distinct : (nodes.toList.map TypeNode.offset).Nodup
  finished : ∀ node ∈ nodes, Finished info nodes node

/-! ## Nodes keep their entries -/

/-- The nodes that were there are still there for the same entries. -/
def Extends (nodes nodes' : TypeGraph) : Prop :=
  ∀ (index : Nat) (node : TypeNode), nodes[index]? = some node →
    ∃ node', nodes'[index]? = some node' ∧ node'.entry = node.entry

theorem Extends.refl (nodes : TypeGraph) : Extends nodes nodes := fun _ node h => ⟨node, h, rfl⟩

theorem Extends.trans {nodes'' : TypeGraph} (h : Extends nodes nodes') (h' : Extends nodes' nodes'') :
    Extends nodes nodes'' := by
  intro index node hnode
  obtain ⟨node', hnode', hentry⟩ := h index node hnode
  obtain ⟨node'', hnode'', hentry'⟩ := h' index node' hnode'
  exact ⟨node'', hnode'', hentry'.trans hentry⟩

theorem Extends.size_le (h : Extends nodes nodes') : nodes.size ≤ nodes'.size := by
  by_contra hlt
  obtain ⟨_, hnode, -⟩ := h nodes'.size _ (Array.getElem?_eq_getElem (by omega))
  simp at hnode

theorem StandsFor.mono (h : Extends nodes nodes') {index : Nat} (hstands : StandsFor info nodes offset index) :
    StandsFor info nodes' offset index := by
  obtain ⟨node, hnode, hdefinition⟩ := hstands
  obtain ⟨node', hnode', hentry⟩ := h index node hnode
  refine ⟨node', hnode', ?_⟩
  rw [hdefinition, TypeNode.offset, TypeNode.offset, hentry]

theorem StandsFor.lt {index : Nat} (h : StandsFor info nodes offset index) : index < nodes.size := by
  obtain ⟨node, hnode, -⟩ := h
  exact (Array.getElem?_eq_some_iff.mp hnode).choose

namespace ChildrenRead

variable {children : List Entry} {indices : List Nat} {dimensions : List ArrayDimension}

theorem mono (h : Extends nodes nodes') (hread : ChildrenRead info nodes children indices dimensions) :
    ChildrenRead info nodes' children indices dimensions := by
  induction hread with
  | nil => exact .nil
  | subrange hnode hdefinition htag hdimension rest ih =>
    obtain ⟨node', hnode', hentry⟩ := h _ _ hnode
    refine .subrange hnode' ?_ ?_ hdimension ih
    · rw [hdefinition, TypeNode.offset, TypeNode.offset, hentry]
    · rw [← htag, TypeNode.tag, TypeNode.tag, hentry]
  | other hnode hdefinition htag rest ih =>
    obtain ⟨node', hnode', hentry⟩ := h _ _ hnode
    refine .other hnode' ?_ ?_ ih
    · rw [hdefinition, TypeNode.offset, TypeNode.offset, hentry]
    · rwa [TypeNode.tag, hentry]

theorem append {children' indices' dimensions'} (h : ChildrenRead info nodes children indices dimensions)
    (h' : ChildrenRead info nodes children' indices' dimensions') :
    ChildrenRead info nodes (children ++ children') (indices ++ indices') (dimensions ++ dimensions') := by
  induction h with
  | nil => exact h'
  | subrange hnode hdefinition htag hdimension rest ih => exact .subrange hnode hdefinition htag hdimension ih
  | other hnode hdefinition htag rest ih => exact .other hnode hdefinition htag ih

theorem lt (h : ChildrenRead info nodes children indices dimensions) : ∀ index ∈ indices, index < nodes.size := by
  induction h with
  | nil => exact List.forall_mem_nil _
  | subrange hnode hdefinition htag hdimension rest ih =>
    exact List.forall_mem_cons.mpr ⟨StandsFor.lt ⟨_, hnode, hdefinition⟩, ih⟩
  | other hnode hdefinition htag rest ih =>
    exact List.forall_mem_cons.mpr ⟨StandsFor.lt ⟨_, hnode, hdefinition⟩, ih⟩

end ChildrenRead

theorem rel_mono (h : Extends nodes nodes') {type : Option UInt32} {next : Option Nat}
    (hnext : Option.Rel (StandsFor info nodes) type next) : Option.Rel (StandsFor info nodes') type next := by
  cases hnext with
  | none => exact .none
  | some hstands => exact .some (hstands.mono h)

theorem Finished.mono {node : TypeNode} (h : Extends nodes nodes') (hfinished : Finished info nodes node) :
    Finished info nodes' node := by
  obtain ⟨⟨type, htype, hnext⟩, ⟨tree, htree, hentry, hchildren⟩⟩ := hfinished
  exact ⟨⟨type, htype, rel_mono h hnext⟩, ⟨tree, htree, hentry, hchildren.mono h⟩⟩

theorem extends_push (nodes : TypeGraph) (node : TypeNode) : Extends nodes (nodes.push node) := by
  intro index old hold
  have hlt := (Array.getElem?_eq_some_iff.mp hold).choose
  refine ⟨old, ?_, rfl⟩
  rw [Array.getElem?_push, if_neg (Nat.ne_of_lt hlt), hold]

section

variable {own : Nat} {change : TypeNode → TypeNode} (hchange : ∀ node, (change node).entry = node.entry)
include hchange

theorem extends_modify (nodes : TypeGraph) : Extends nodes (nodes.modify own change) := by
  intro index node hnode
  rw [Array.getElem?_modify, hnode]
  split
  · exact ⟨change node, rfl, hchange node⟩
  · exact ⟨node, rfl, rfl⟩

theorem modify_extends (nodes : TypeGraph) : Extends (nodes.modify own change) nodes := by
  intro index node hnode
  rw [Array.getElem?_modify] at hnode
  split at hnode
  · obtain ⟨old, hold, rfl⟩ := Option.map_eq_some_iff.mp hnode
    exact ⟨old, hold, (hchange old).symm⟩
  · exact ⟨node, hnode, rfl⟩

end

/-! ## Readings -/

/-- Every entry that is known stands for its node, and so does the entry of every node. -/
structure Consistent (info : DebugInfo) (r : TypeReading) : Prop where
  stands : ∀ offset index, r.known.lookup offset = some index → StandsFor info r.nodes offset index
  known : ∀ (index : Nat) (node : TypeNode), r.nodes[index]? = some node → r.known.lookup node.offset = some index

/-- A reading goes on: only the node that is being read may change, and new nodes are finished. -/
structure Progress (info : DebugInfo) (own : Option Nat) (r r' : TypeReading) : Prop where
  consistent : Consistent info r'
  extended : Extends r.nodes r'.nodes
  stays : ∀ index < r.nodes.size, some index ≠ own → r'.nodes[index]? = r.nodes[index]?
  finished : ∀ (index : Nat) (node : TypeNode), r.nodes.size ≤ index → r'.nodes[index]? = some node →
    Finished info r'.nodes node

namespace Progress

variable {own : Option Nat}

theorem refl (h : Consistent info r) : Progress info own r r where
  consistent := h
  extended := .refl _
  stays _ _ _ := rfl
  finished index node hindex hnode := by
    have hlt := (Array.getElem?_eq_some_iff.mp hnode).choose
    omega

theorem trans (hown : ∀ index ∈ own, index < r.nodes.size) (h : Progress info own r r')
    (h' : Progress info own r' r'') : Progress info own r r'' where
  consistent := h'.consistent
  extended := h.extended.trans h'.extended
  stays index hindex hne := by
    rw [h'.stays index (Nat.lt_of_lt_of_le hindex h.extended.size_le) hne, h.stays index hindex hne]
  finished index node hindex hnode := by
    by_cases hlt : index < r'.nodes.size
    · -- a node of the first reading is finished, and the second one leaves it as it is
      have hne : some index ≠ own := fun heq => by
        have := hown index heq.symm
        omega
      rw [h'.stays index hlt hne] at hnode
      exact (h.finished index node hindex hnode).mono h'.extended
    · exact h'.finished index node (by omega) hnode

theorem weaken (h : Progress info none r r') : Progress info own r r' :=
  { h with stays := fun index hindex _ => h.stays index hindex (Option.some_ne_none index) }

theorem node_eq (h : Progress info none r r') {index : Nat} {node : TypeNode} (hnode : r.nodes[index]? = some node) :
    r'.nodes[index]? = some node := by
  rw [h.stays index (Array.getElem?_eq_some_iff.mp hnode).choose (Option.some_ne_none index), hnode]

end Progress

def changed (r : TypeReading) (own : Nat) (change : TypeNode → TypeNode) : TypeReading :=
  { r with nodes := r.nodes.modify own change }

@[simp]
theorem changeNode_eq_ok_iff {own : Nat} {change : TypeNode → TypeNode} {u : Unit} :
    changeNode own change r = .ok u r' ↔ changed r own change = r' := run_modify_eq_ok_iff

theorem node_changed {own : Nat} {change : TypeNode → TypeNode} {node : TypeNode} (h : r.nodes[own]? = some node) :
    (changed r own change).nodes[own]? = some (change node) := by
  rw [changed, Array.getElem?_modify, if_pos rfl, h]
  rfl

theorem changed_changed (own : Nat) (first second : TypeNode → TypeNode) :
    changed (changed r own first) own second = changed r own fun node => second (first node) := by
  refine congrArg (fun nodes => { r with nodes }) (Array.ext_getElem? fun index => ?_)
  simp only [changed, Array.getElem?_modify]
  split
  · rw [Option.map_map]
    rfl
  · rfl

theorem progress_changed {own : Nat} {change : TypeNode → TypeNode}
    (hchange : ∀ node, (change node).entry = node.entry) (h : Consistent info r) :
    Progress info (some own) r (changed r own change) where
  consistent :=
    { stands := fun offset index hknown => (h.stands offset index hknown).mono (extends_modify hchange _)
      known := fun index node hnode => by
        obtain ⟨old, hold, hentry⟩ := modify_extends hchange _ index node hnode
        rw [TypeNode.offset, ← hentry]
        exact h.known index old hold }
  extended := extends_modify hchange _
  stays index _ hne := by
    rw [changed, Array.getElem?_modify, if_neg fun heq => hne (congrArg some heq.symm)]
  finished index node hindex hnode := by
    have hlt := (Array.getElem?_eq_some_iff.mp hnode).choose
    rw [changed, Array.size_modify] at hlt
    omega

theorem consistent_withNode {tree : Entry} (htree : info.treeAt offset (some 1) = .ok tree)
    (hdefinition : info.definitionOf offset = .ok offset) (hnew : r.known.lookup offset = none)
    (h : Consistent info r) : Consistent info (withNode r tree) := by
  obtain rfl := offset_of_treeAt htree
  have hpush : (withNode r tree).nodes[r.nodes.size]? = some { entry := tree.bare } := Array.getElem?_push_size
  constructor
  · intro known index hknown
    rw [withNode, List.lookup_cons] at hknown
    split at hknown
    case h_1 heq =>
      obtain rfl := eq_of_beq heq
      obtain rfl := Option.some.inj hknown
      exact ⟨_, hpush, hdefinition⟩
    case h_2 => exact (h.stands known index hknown).mono (extends_push _ _)
  · intro index node hnode
    rw [withNode, List.lookup_cons]
    by_cases hindex : index = r.nodes.size
    · subst hindex
      obtain rfl := Option.some.inj (hpush.symm.trans hnode)
      rw [show ({ entry := tree.bare } : TypeNode).offset = tree.offset from rfl, beq_self_eq_true]
    · have hold : r.nodes[index]? = some node := by
        rw [withNode, Array.getElem?_push, if_neg hindex] at hnode
        exact hnode
      have hknown := h.known index node hold
      split
      case h_1 heq =>
        rw [eq_of_beq heq, hnew] at hknown
        cases hknown
      case h_2 => exact hknown

theorem consistent_remember {definition : UInt32} {index : Nat}
    (hdefinition : info.definitionOf offset = .ok definition) (hother : definition ≠ offset)
    (hstands : StandsFor info r.nodes definition index) (h : Consistent info r) :
    Consistent info { r with known := (offset, index) :: r.known } := by
  constructor
  · intro known found hknown
    rw [List.lookup_cons] at hknown
    split at hknown
    case h_1 heq =>
      obtain rfl := eq_of_beq heq
      obtain rfl := Option.some.inj hknown
      obtain ⟨node, hnode, hend⟩ := hstands
      refine ⟨node, hnode, ?_⟩
      rwa [hdefinition, ← definitionOf_definition hdefinition]
    case h_2 => exact h.stands known found hknown
  · intro found node hnode
    have hknown := h.known found node hnode
    rw [List.lookup_cons]
    split
    case h_1 heq =>
      -- the entry of a node is its own definition
      obtain ⟨same, hsame, hend⟩ := h.stands node.offset found hknown
      obtain rfl := Option.some.inj (hnode.symm.trans hsame)
      rw [eq_of_beq heq, hdefinition] at hend
      exact absurd (Except.ok.inj hend) hother
    case h_2 => exact hknown

/-! ## A node being read -/

/-- The node of an entry with some of the entry's children. -/
def HalfRead (info : DebugInfo) (nodes : TypeGraph) (own : Nat) (tree : Entry) (type : Option UInt32)
    (children : List Entry) : Prop :=
  ∃ node, nodes[own]? = some node ∧ node.entry = tree.bare ∧ Option.Rel (StandsFor info nodes) type node.next ∧
    ChildrenRead info nodes children node.children node.dimensions

/-- Reading an entry gives the node it stands for; what is read first is the first node. -/
def Sound (info : DebugInfo) (read : UInt32 → TypeRead Nat) : Prop :=
  ∀ offset r index r', Consistent info r → read offset r = .ok index r' →
    Progress info none r r' ∧ StandsFor info r'.nodes offset index ∧ (r.nodes.size = 0 → index = 0)

/-- What reading a child adds to its parent: a node and, for a subrange, a dimension. -/
theorem ran_of_readChild {own : Nat} {child : Entry} {u : Unit} (hsound : Sound info read) (h : Consistent info r)
    (hran : info.readChild read own child.offset r = .ok u r') :
    ∃ index dimensions r₁, Progress info none r r₁ ∧ ChildrenRead info r₁.nodes [child] [index] dimensions ∧
      r' = changed r₁ own (TypeNode.addChild index dimensions) := by
  simp only [readChild, run_bind_eq_ok_iff, changeNode_eq_ok_iff, run_get_eq_ok_iff] at hran
  obtain ⟨index, r₁, hread, -, _, rfl, _, _, ⟨rfl, rfl⟩, hran⟩ := hran
  obtain ⟨hprogress, ⟨node, hnode, hdefinition⟩, -⟩ := hsound _ _ _ _ h hread
  have hmore : Extends r₁.nodes
      (changed r₁ own fun node => { node with children := node.children ++ [index] }).nodes :=
    extends_modify (fun _ => by rfl) r₁.nodes
  obtain ⟨same, hsame, hentry⟩ := hmore index node hnode
  simp only [hsame, Option.any_some, TypeNode.tag, hentry] at hran
  split at hran
  case isTrue htag =>
    simp only [run_bind_eq_ok_iff, run_liftExcept_eq_ok_iff, changeNode_eq_ok_iff] at hran
    obtain ⟨dimension, _, ⟨hdimension, rfl⟩, rfl⟩ := hran
    refine ⟨index, [dimension], r₁, hprogress, ?_, changed_changed _ _ _⟩
    exact .subrange hnode hdefinition (of_decide_eq_true htag) hdimension .nil
  case isFalse htag =>
    cases hran
    have hother := of_decide_eq_false (eq_false_of_ne_true htag)
    refine ⟨index, [], r₁, hprogress, .other hnode hdefinition hother .nil, ?_⟩
    unfold TypeNode.addChild
    simp only [List.append_nil]

theorem halfRead_readChild {own : Nat} {tree child : Entry} {type : Option UInt32} {children : List Entry} {u : Unit}
    (hsound : Sound info read) (h : Consistent info r) (hhalf : HalfRead info r.nodes own tree type children)
    (hran : info.readChild read own child.offset r = .ok u r') :
    Progress info (some own) r r' ∧ HalfRead info r'.nodes own tree type (children ++ [child]) := by
  obtain ⟨index, dimensions, r₁, hprogress, hchild, rfl⟩ := ran_of_readChild hsound h hran
  obtain ⟨node, hnode, hentry, hnext, hchildren⟩ := hhalf
  have hlt := (Array.getElem?_eq_some_iff.mp hnode).choose
  have hadded : Progress info (some own) r₁ (changed r₁ own (TypeNode.addChild index dimensions)) :=
    progress_changed (fun _ => rfl) hprogress.consistent
  have hboth := hprogress.extended.trans hadded.extended
  refine ⟨hprogress.weaken.trans (by simpa using hlt) hadded, _, node_changed (hprogress.node_eq hnode), hentry,
    rel_mono hboth hnext, ?_⟩
  exact (hchildren.mono hboth).append (hchild.mono hadded.extended)

theorem halfRead_readChildren {own : Nat} {tree : Entry} {type : Option UInt32} {children rest : List Entry}
    {u : PUnit} (hsound : Sound info read) (h : Consistent info r)
    (hhalf : HalfRead info r.nodes own tree type children)
    (hran : (rest.forM fun child => info.readChild read own child.offset : TypeRead PUnit) r = .ok u r') :
    Progress info (some own) r r' ∧ HalfRead info r'.nodes own tree type (children ++ rest) := by
  induction rest generalizing children r with
  | nil =>
    cases hran
    rw [List.append_nil]
    exact ⟨.refl h, hhalf⟩
  | cons child rest ih =>
    obtain ⟨u, r₁, hchild, hran⟩ := ran_of_bind hran
    obtain ⟨hprogress, hhalf₁⟩ := halfRead_readChild hsound h hhalf hchild
    obtain ⟨hrest, hwhole⟩ := ih hprogress.consistent hhalf₁ hran
    obtain ⟨node, hnode, -⟩ := hhalf
    have hlt := (Array.getElem?_eq_some_iff.mp hnode).choose
    rw [List.append_cons]
    exact ⟨hprogress.trans (by simpa using hlt) hrest, hwhole⟩

theorem halfRead_readParts {own index : Nat} {tree : Entry} {node : TypeNode} (hsound : Sound info read)
    (h : Consistent info r) (hnode : r.nodes[own]? = some node) (hbare : node = { entry := tree.bare })
    (hran : info.readParts read offset own tree.children r = .ok index r') :
    index = own ∧ ∃ type, info.reference? offset .type = .ok type ∧ Progress info (some own) r r' ∧
      HalfRead info r'.nodes own tree type tree.children := by
  subst hbare
  have hlt := (Array.getElem?_eq_some_iff.mp hnode).choose
  simp only [readParts, run_bind_eq_ok_iff, run_liftExcept_eq_ok_iff] at hran
  obtain ⟨type, r₁, ⟨htype, rfl⟩, hran⟩ := hran
  cases type with
  | none =>
    simp only [run_bind_eq_ok_iff, run_pure_eq_ok_iff] at hran
    obtain ⟨u, _, hchildren, rfl, rfl⟩ := hran
    have hhalf : HalfRead info r₁.nodes own tree none [] := ⟨_, hnode, rfl, .none, .nil⟩
    obtain ⟨hprogress, hhalf⟩ := halfRead_readChildren hsound h hhalf hchildren
    exact ⟨rfl, none, htype, hprogress, hhalf⟩
  | some type =>
    simp only [run_bind_eq_ok_iff, changeNode_eq_ok_iff, run_pure_eq_ok_iff] at hran
    obtain ⟨next, r₁, hread, -, _, rfl, u, _, hchildren, rfl, rfl⟩ := hran
    obtain ⟨hread, hstands, -⟩ := hsound _ _ _ _ h hread
    have hnext : Progress info (some own) r₁ (changed r₁ own fun node => { node with next := some next }) :=
      progress_changed (fun _ => rfl) hread.consistent
    have hhalf : HalfRead info (changed r₁ own fun node => { node with next := some next }).nodes own tree
        (some type) [] :=
      ⟨_, node_changed (hread.node_eq hnode), rfl, .some (hstands.mono hnext.extended), .nil⟩
    obtain ⟨hprogress, hhalf⟩ := halfRead_readChildren hsound hnext.consistent hhalf hchildren
    have hfirst := hread.weaken.trans (by simpa using hlt) hnext
    exact ⟨rfl, some type, htype, hfirst.trans (by simpa using hlt) hprogress, hhalf⟩

theorem sound_readNode (hsound : Sound info read) {index : Nat} (h : Consistent info r)
    (hnew : r.known.lookup offset = none) (hdefinition : info.definitionOf offset = .ok offset)
    (hran : info.readNode read offset r = .ok index r') :
    Progress info none r r' ∧ StandsFor info r'.nodes offset index ∧ index = r.nodes.size := by
  obtain ⟨tree, _, htree, -⟩ := ran_of_bind hran
  obtain ⟨htree, -⟩ := run_liftExcept_eq_ok_iff.mp htree
  rw [readNode_of_treeAt htree] at hran
  have hown : (withNode r tree).nodes[r.nodes.size]? = some { entry := tree.bare } := Array.getElem?_push_size
  obtain ⟨rfl, type, htype, hprogress, node, hnode, hentry, hnext, hchildren⟩ := halfRead_readParts hsound
    (consistent_withNode htree hdefinition hnew h) hown rfl hran
  have hoffset : node.offset = offset := by
    rw [TypeNode.offset, hentry]
    exact (offset_of_treeAt htree :)
  have hfinished : Finished info r'.nodes node := by
    rw [← hoffset] at htype htree
    exact ⟨⟨type, htype, hnext⟩, ⟨tree, htree, hentry, hchildren⟩⟩
  have hsize : (withNode r tree).nodes.size = r.nodes.size + 1 := Array.size_push _
  refine ⟨⟨hprogress.consistent, (extends_push _ _).trans hprogress.extended, ?_, ?_⟩, ?_, rfl⟩
  · intro index hindex _
    rw [hprogress.stays index (by omega) fun heq => Nat.ne_of_lt hindex (Option.some.inj heq), withNode,
      Array.getElem?_push, if_neg (Nat.ne_of_lt hindex)]
  · intro index new hindex hnew
    by_cases heq : index = r.nodes.size
    · subst heq
      obtain rfl := Option.some.inj (hnode.symm.trans hnew)
      exact hfinished
    · exact hprogress.finished index new (by omega) hnew
  · exact ⟨node, hnode, by rw [hdefinition, hoffset]⟩

theorem sound_readStep (hsound : Sound info read) : Sound info (info.readStep read) := by
  intro offset r index r' h hran
  cases hknown : r.known.lookup offset with
  | some found =>
    rw [readStep_known hknown] at hran
    cases hran
    have hstands := h.stands _ _ hknown
    have hlt := hstands.lt
    exact ⟨.refl h, hstands, fun hempty => by omega⟩
  | none =>
    rw [readStep_new hknown] at hran
    simp only [run_bind_eq_ok_iff, run_liftExcept_eq_ok_iff] at hran
    obtain ⟨definition, _, ⟨hdefinition, rfl⟩, hrun⟩ := hran
    split at hrun
    case isTrue hown =>
      subst hown
      obtain ⟨hprogress, hstands, rfl⟩ := sound_readNode hsound h hknown hdefinition hrun
      exact ⟨hprogress, hstands, id⟩
    case isFalse hother =>
      obtain ⟨found, r₁, hread, hrun⟩ := ran_of_bind hrun
      cases hrun
      obtain ⟨hprogress, hstands, hfirst⟩ := hsound _ _ _ _ h hread
      have hconsistent := consistent_remember hdefinition hother hstands hprogress.consistent
      refine ⟨{ hprogress with consistent := hconsistent }, ?_, hfirst⟩
      obtain ⟨node, hnode, hend⟩ := hstands
      refine ⟨node, hnode, ?_⟩
      rwa [hdefinition, ← definitionOf_definition hdefinition]

theorem sound_readTypeFor (budget : Nat) : Sound info (info.readTypeFor budget) := by
  induction budget with
  | zero =>
    intro _ _ _ _ _ hran
    cases hran
  | succ budget ih => exact sound_readStep ih

theorem distinct_of_consistent (h : Consistent info r) : (r.nodes.toList.map TypeNode.offset).Nodup := by
  rw [List.nodup_iff_getElem?_ne_getElem?]
  intro i j hij hj heq
  rw [List.length_map] at hj
  rw [Array.length_toList] at hj
  have hfirst : r.nodes[i]? = some r.nodes[i] := Array.getElem?_eq_getElem _
  have hsecond : r.nodes[j]? = some r.nodes[j] := Array.getElem?_eq_getElem _
  rw [List.getElem?_map, List.getElem?_map, Array.getElem?_toList, Array.getElem?_toList, hfirst, hsecond] at heq
  have hknown := h.known i _ hfirst
  rw [Option.some.inj heq, h.known j _ hsecond] at hknown
  have := Option.some.inj hknown
  omega

theorem consistent_empty : Consistent info {} := by
  constructor
  · intro _ _ hknown
    cases hknown
  · intro index node hnode
    simp at hnode

theorem isTypeGraph_of_readType {index : Nat} (hran : info.readType offset {} = .ok index r) :
    IsTypeGraph info offset r.nodes := by
  obtain ⟨hprogress, hstands, hindex⟩ := sound_readTypeFor _ _ _ _ _ consistent_empty hran
  obtain rfl := hindex rfl
  have hfinished : ∀ node ∈ r.nodes, Finished info r.nodes node := by
    intro node hnode
    obtain ⟨place, hplace⟩ := Array.mem_iff_getElem?.mp hnode
    exact hprogress.finished place node (Nat.zero_le _) hplace
  refine ⟨hstands, ?_, ?_, distinct_of_consistent hprogress.consistent, hfinished⟩
  · intro node hnode next hnext
    obtain ⟨⟨type, -, hrel⟩, -⟩ := hfinished node hnode
    rw [Option.mem_def.mp hnext] at hrel
    cases hrel with
    | some hstands => exact hstands.lt
  · intro node hnode child hchild
    obtain ⟨-, ⟨tree, -, -, hchildren⟩⟩ := hfinished node hnode
    exact hchildren.lt child hchild

/--
Reading a type is a recursion that ends, whatever cycles the attributes form: what is done below a depth
of twice the number of entries does not matter. What it gives is a graph of the type.
-/
theorem typeGraph_isTypeGraph (info : DebugInfo) :
    (∀ offset, info.readType offset = info.readStep info.readType offset) ∧
    (∀ ways : Nat → UInt32 → TypeRead Nat,
      (∀ budget offset, ways (budget + 1) offset = info.readStep (ways budget) offset) →
      ∀ budget, 2 * info.entries.size + 2 ≤ budget → ways budget = info.readType) ∧
    ∀ offset nodes, info.typeGraph offset = .ok nodes → IsTypeGraph info offset nodes := by
  refine ⟨readType_eq, fun ways hways budget => ways_eq_readType ways hways, fun offset nodes hread => ?_⟩
  unfold typeGraph at hread
  split at hread
  case h_1 index r hran =>
    cases hread
    exact isTypeGraph_of_readType hran
  case h_2 => cases hread

/-- A structure with a pointer to itself. -/
def linked : Sections where
  info := #[21, 0, 0, 0, 4, 0, 0, 0, 0, 0, 4, 1, 2, 3, 19, 0, 0, 0, 0, 4, 12, 0, 0, 0, 0]
  abbreviations := #[1, 0x11, 1, 0, 0, 2, 0x13, 1, 0, 0, 3, 0x0d, 0, 0x49, 0x13, 0, 0, 4, 0x0f, 0, 0x49, 0x13, 0, 0,
    0]

theorem graph_linked : (build linked).toOption.bind (fun info => (info.typeGraph 12).toOption.map fun nodes =>
    (info.entries.size, nodes.toList.map fun node => (node.offset, node.next, node.children))) =
      some (6, [(12, none, [1]), (13, some 2, []), (19, some 0, [])]) := by
  decide +kernel

theorem isTypeGraph_linked : ∃ info nodes, build linked = .ok info ∧ info.typeGraph 12 = .ok nodes ∧
    nodes.toList.map (fun node => (node.offset, node.next, node.children)) =
      [(12, none, [1]), (13, some 2, []), (19, some 0, [])] ∧
    IsTypeGraph info 12 nodes ∧ info.readTypeFor 14 = info.readType := by
  obtain ⟨info, hinfo, hgraph⟩ := Option.bind_eq_some_iff.mp graph_linked
  obtain ⟨nodes, hnodes, hfacts⟩ := Option.map_eq_some_iff.mp hgraph
  obtain ⟨hsize, hshape⟩ := Prod.mk.inj hfacts
  have hread := ok_of_toOption hnodes
  have hbudget : 2 * info.entries.size + 2 ≤ 14 := by omega
  exact ⟨info, nodes, ok_of_toOption hinfo, hread, hshape, (typeGraph_isTypeGraph info).2.2 12 nodes hread,
    (typeGraph_isTypeGraph info).2.1 info.readTypeFor (fun _ _ => rfl) 14 hbudget⟩

end DebugInfo

end FirmwareDebug
