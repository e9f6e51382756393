import FirmwareDebug.Proofs.Keeps
import FirmwareDebug.Proofs.TypeName.CType
import Mathlib.Data.Finset.Card

/-!
# Type graphs that stand for C types

A node stands for a C type if all that it refers to does. Such a graph has no cycles, so what it stands for
lies no deeper than it has nodes, and the budget of the writing suffices: the graph has the name of the type.
-/

namespace FirmwareDebug

/-- The number of elements of a dimension that is known. -/
def ArrayDimension.count? : ArrayDimension → Option UInt32
  | .counted count => some count
  | _ => none

namespace DebugInfo

variable {info : DebugInfo} {nodes : TypeGraph} {read other : Option Nat → Option CType} {node : TypeNode}
  {index : Option Nat} {type : CType} {budget : Nat}

def parameterTypes (read : Option Nat → Option CType) (nodes : TypeGraph) : List Nat → Option (List CType)
  | [] => some []
  | child :: rest => do
    let node ← nodes[child]?
    if node.tag = .formalParameter then
      let type ← read node.next
      return type :: (← parameterTypes read nodes rest)
    else if node.tag = .unspecifiedParameters then none
    else parameterTypes read nodes rest

/-- The C type that a node stands for, with a way to read those that it refers to. -/
def nodeType (info : DebugInfo) (read : Option Nat → Option CType) (nodes : TypeGraph) (node : TypeNode) :
    Option CType :=
  match node.kind with
  | .base => do
    let name ← (info.nodeName node).toOption.join
    if h : IsBaseName name then some (.base ⟨name, h⟩) else none
  | .qualifier word => do
    let q ← Qualifier.ofWord? word
    return .qualified q (← read node.next)
  | .pointer sigil => do
    guard (sigil = "*")
    return .pointer (← read node.next)
  | .array => do
    let counts ← node.dimensions.mapM ArrayDimension.count?
    guard (counts ≠ [])
    return counts.foldr .array (← read node.next)
  | .subroutine => do
    let types ← parameterTypes read nodes node.children
    return .function (← Parameters.ofList? types) (← read node.next)
  | _ => none

/-- The C type that a graph stands for at a node, which may lie `budget` nodes deep. -/
def typeFor (info : DebugInfo) (nodes : TypeGraph) : (budget : Nat) → Option Nat → Option CType
  | budget, index =>
    match index.bind (nodes[·]?) with
    | none => some .void
    | some node =>
      match budget with
      | 0 => none
      | budget + 1 => info.nodeType (info.typeFor nodes budget) nodes node

/-! ## What nodes stand for -/

/-- A node stands for a type. -/
inductive NodeStands (info : DebugInfo) (read : Option Nat → Option CType) (nodes : TypeGraph) (node : TypeNode) :
    CType → Prop
  | base {name : BaseName} (hkind : node.kind = .base) (hname : info.nodeName node = .ok (some name.val)) :
      NodeStands info read nodes node (.base name)
  | qualified {q : Qualifier} {type : CType} (hkind : node.kind = .qualifier q.word)
      (hnext : read node.next = some type) : NodeStands info read nodes node (.qualified q type)
  | pointer {type : CType} (hkind : node.kind = .pointer "*") (hnext : read node.next = some type) :
      NodeStands info read nodes node (.pointer type)
  | array {count : UInt32} {counts : List UInt32} {type : CType} (hkind : node.kind = .array)
      (hdimensions : node.dimensions = (count :: counts).map .counted) (hnext : read node.next = some type) :
      NodeStands info read nodes node (.array count (counts.foldr .array type))
  | function {types : List CType} {parameters : Parameters} {result : CType} (hkind : node.kind = .subroutine)
      (htypes : parameterTypes read nodes node.children = some types)
      (hparameters : Parameters.ofList? types = some parameters) (hnext : read node.next = some result) :
      NodeStands info read nodes node (.function parameters result)

theorem mapM_count? {dimensions : List ArrayDimension} {counts : List UInt32} :
    dimensions.mapM ArrayDimension.count? = some counts ↔ dimensions = counts.map .counted := by
  induction dimensions generalizing counts with
  | nil => cases counts <;> simp
  | cons dimension rest ih =>
    cases dimension <;> cases counts <;> simp [ArrayDimension.count?, Option.bind_eq_some_iff, ih, and_comm]

theorem nodeType_iff : info.nodeType read nodes node = some type ↔ info.NodeStands read nodes node type := by
  constructor
  · intro h
    unfold nodeType at h
    split at h
    case h_1 hkind =>
      obtain ⟨name, hname, h⟩ := Option.bind_eq_some_iff.mp h
      split at h
      case isTrue hbase =>
        cases h
        exact .base hkind (ok_of_toOption (Option.join_eq_some_iff.mp hname))
      case isFalse => cases h
    case h_2 word hkind =>
      obtain ⟨q, hq, h⟩ := Option.bind_eq_some_iff.mp h
      obtain ⟨next, hnext, h⟩ := Option.bind_eq_some_iff.mp h
      cases h
      exact .qualified (Qualifier.word_of_ofWord? hq ▸ hkind) hnext
    case h_3 sigil hkind =>
      obtain ⟨_, hsigil, h⟩ := Option.bind_eq_some_iff.mp h
      obtain ⟨next, hnext, h⟩ := Option.bind_eq_some_iff.mp h
      cases h
      have heq : sigil = "*" := by
        by_contra hne
        simp [guard, hne] at hsigil
      exact .pointer (heq ▸ hkind) hnext
    case h_4 hkind =>
      obtain ⟨counts, hcounts, h⟩ := Option.bind_eq_some_iff.mp h
      obtain ⟨_, hne, h⟩ := Option.bind_eq_some_iff.mp h
      obtain ⟨next, hnext, h⟩ := Option.bind_eq_some_iff.mp h
      cases h
      cases counts with
      | nil => simp [guard] at hne
      | cons count counts => exact .array hkind (mapM_count?.mp hcounts) hnext
    case h_5 hkind =>
      obtain ⟨types, htypes, h⟩ := Option.bind_eq_some_iff.mp h
      obtain ⟨parameters, hparameters, h⟩ := Option.bind_eq_some_iff.mp h
      obtain ⟨next, hnext, h⟩ := Option.bind_eq_some_iff.mp h
      cases h
      exact .function hkind htypes hparameters hnext
    case h_6 => cases h
  · intro h
    unfold nodeType
    cases h with
    | @base name hkind hname =>
      rw [hkind]
      simp only [hname, Except.toOption, Option.join_some, bind, Option.bind_some, dif_pos name.property]
    | @qualified q type hkind hnext =>
      rw [hkind]
      cases q <;> simp [Qualifier.ofWord?, Qualifier.word, hnext]
    | pointer hkind hnext =>
      rw [hkind]
      simp [guard, hnext]
    | array hkind hdimensions hnext =>
      rw [hkind]
      simp [guard, mapM_count?.mpr hdimensions, hnext]
    | function hkind htypes hparameters hnext =>
      rw [hkind]
      simp [htypes, hparameters, hnext]

theorem typeFor_node {place : Nat} (hnode : nodes[place]? = some node) :
    info.typeFor nodes (budget + 1) (some place) = info.nodeType (info.typeFor nodes budget) nodes node := by
  rw [typeFor, Option.bind_some, hnode]

theorem typeFor_cases (h : info.typeFor nodes budget index = some type) :
    (index.bind (nodes[·]?) = none ∧ type = .void) ∨
      ∃ place node rest, index = some place ∧ nodes[place]? = some node ∧ budget = rest + 1 ∧
        info.NodeStands (info.typeFor nodes rest) nodes node type := by
  unfold typeFor at h
  split at h
  case h_1 hnone =>
    cases h
    exact .inl ⟨hnone, rfl⟩
  case h_2 node hnode =>
    obtain ⟨place, rfl, hplace⟩ := Option.bind_eq_some_iff.mp hnode
    split at h
    · cases h
    · exact .inr ⟨place, node, _, rfl, hplace, rfl, nodeType_iff.mp h⟩

theorem shape_of_typeFor (h : info.typeFor nodes budget index = some type) :
    nodes.isPointer index = type.isPointer ∧ nodes.isArray index = type.isArray ∧
      nodes.isSubroutine index = type.isFunction := by
  rcases typeFor_cases h with ⟨hnone, rfl⟩ | ⟨place, node, rest, rfl, hnode, rfl, hstands⟩
  · have hkind : nodes.kind? index = none := by
      cases index with
      | none => rfl
      | some place =>
        rw [Option.bind_some] at hnone
        simp [TypeGraph.kind?, hnone]
    simp [TypeGraph.isPointer, TypeGraph.isArray, TypeGraph.isSubroutine, hkind, CType.void, CType.isPointer,
      CType.isArray, CType.isFunction]
  · have hkind : nodes.kind? (some place) = some node.kind := by simp [TypeGraph.kind?, hnode]
    rw [TypeGraph.isPointer, TypeGraph.isArray, TypeGraph.isSubroutine, hkind]
    cases hstands with
    | base hkind hname => simp [hkind, CType.isPointer, CType.isArray, CType.isFunction]
    | qualified hkind hnext => simp [hkind, CType.isPointer, CType.isArray, CType.isFunction]
    | pointer hkind hnext => simp [hkind, CType.isPointer, CType.isArray, CType.isFunction]
    | array hkind hdimensions hnext => simp [hkind, CType.isPointer, CType.isArray, CType.isFunction]
    | function hkind htypes hparameters hnext => simp [hkind, CType.isPointer, CType.isArray, CType.isFunction]

/-! ## The names of nodes -/

theorem declarator_foldr_array (counts : List UInt32) (element : CType) :
    (counts.foldr CType.array element).declarator =
      { element.declarator with
        behind := String.join (counts.map fun count => (ArrayDimension.counted count).text) ++
          element.declarator.behind } := by
  induction counts with
  | nil => simp
  | cons count counts ih =>
    rw [List.foldr_cons, CType.declarator, ih]
    simp [String.append_assoc]

/-- A way to write the types of nodes as a way to read them says. -/
structure Writes (nodes : TypeGraph) (read : Option Nat → Option CType) (print : TypePrinter) : Prop where
  next : ∀ index type expand opened, read index = some type → print expand index opened = .ok type.declarator opened
  /-- A parameter is written as its type. -/
  parameter : ∀ (child : Nat) node type opened, nodes[child]? = some node → node.tag = .formalParameter →
    read node.next = some type → print false (some child) opened = .ok type.declarator opened
  shape : ∀ index type, read index = some type → nodes.isPointer index = type.isPointer ∧
    nodes.isArray index = type.isArray ∧ nodes.isSubroutine index = type.isFunction

theorem parameters_written {print : TypePrinter} (hwrites : Writes nodes read print) {children : List Nat}
    {types : List CType} (h : parameterTypes read nodes children = some types) (opened : List Nat) :
    ∃ texts, children.mapM (parameterText print nodes) opened = .ok texts opened ∧
      texts.filterMap id = types.map fun type => type.declarator.text := by
  induction children generalizing types with
  | nil =>
    cases h
    exact ⟨[], rfl, rfl⟩
  | cons child rest ih =>
    obtain ⟨node, hnode, h⟩ := Option.bind_eq_some_iff.mp h
    split at h
    case isTrue htag =>
      obtain ⟨type, htype, h⟩ := Option.bind_eq_some_iff.mp h
      obtain ⟨others, hothers, h⟩ := Option.bind_eq_some_iff.mp h
      cases h
      obtain ⟨texts, htexts, hfilter⟩ := ih hothers
      have hfirst : parameterText print nodes child opened = .ok (some type.declarator.text) opened := by
        unfold parameterText
        rw [hnode]
        show (if node.tag = .formalParameter then _ else _ : Printing (Option String)) opened = _
        rw [if_pos htag, run_bind_of_ok (hwrites.parameter child node type opened hnode htag htype)]
        rfl
      refine ⟨some type.declarator.text :: texts, ?_, ?_⟩
      · rw [List.mapM_cons, run_bind_of_ok hfirst, run_bind_of_ok htexts]
        rfl
      · rw [List.map_cons, ← hfilter]
        rfl
    case isFalse htag =>
      split at h
      case isTrue => cases h
      case isFalse hunspecified =>
        obtain ⟨texts, htexts, hfilter⟩ := ih h
        have hfirst : parameterText print nodes child opened = .ok none opened := by
          unfold parameterText
          rw [hnode]
          show (if node.tag = .formalParameter then _ else _ : Printing (Option String)) opened = _
          rw [if_neg htag, if_neg hunspecified]
          rfl
        refine ⟨none :: texts, ?_, ?_⟩
        · rw [List.mapM_cons, run_bind_of_ok hfirst, run_bind_of_ok htexts]
          rfl
        · exact hfilter

theorem ofList?_ne_nil {types : List CType} {parameters : Parameters}
    (h : Parameters.ofList? types = some parameters) : types ≠ [] := by
  rintro rfl
  cases h

theorem nodeDeclarator_of_stands {print : TypePrinter} (hwrites : Writes nodes read print)
    (h : info.NodeStands read nodes node type) (expand : Bool) (place : Nat) (opened : List Nat) :
    info.nodeDeclarator print nodes expand place node opened = .ok type.declarator opened := by
  unfold nodeDeclarator
  cases h with
  | base hkind hname =>
    rw [hkind]
    dsimp only
    rw [hname]
    rfl
  | @qualified q next hkind hnext =>
    rw [hkind]
    dsimp only
    rw [run_bind_of_ok (hwrites.next _ _ _ _ hnext), (hwrites.shape _ _ hnext).1]
    rfl
  | @pointer next hkind hnext =>
    rw [hkind]
    dsimp only
    obtain ⟨-, harray, hfunction⟩ := hwrites.shape _ _ hnext
    rw [run_bind_of_ok (hwrites.next _ _ _ _ hnext), harray, hfunction]
    rfl
  | @array count counts next hkind hdimensions hnext =>
    rw [hkind]
    dsimp only
    have htext := declarator_foldr_array (count :: counts) next
    rw [run_bind_of_ok (hwrites.next _ _ _ _ hnext), hdimensions, List.map_map]
    exact congrArg (EStateM.Result.ok · opened) htext.symm
  | @function types parameters result hkind htypes hparameters hnext =>
    rw [hkind]
    dsimp only
    rw [run_bind_of_ok (hwrites.next _ _ _ _ hnext)]
    obtain ⟨texts, htexts, hfilter⟩ := parameters_written hwrites htypes opened
    have hne : (types.map fun type => type.declarator.text) ≠ [] := by simpa using ofList?_ne_nil hparameters
    have hwritten : parametersText print nodes node.children opened =
        .ok (", ".intercalate parameters.texts) opened := by
      unfold parametersText
      rw [run_bind_of_ok htexts, hfilter, List.isEmpty_eq_false_iff.mpr hne, Parameters.texts_ofList? hparameters]
      rfl
    rw [run_bind_of_ok hwritten]
    rfl

theorem declaratorFor_nothing (h : index.bind (nodes[·]?) = none) (limit : Nat) (expand : Bool) (opened : List Nat) :
    info.declaratorFor nodes limit expand index opened = .ok ⟨"void", ""⟩ opened := by
  have hnone : (index.bind fun index => nodes[index]?.map fun node => (index, node)) = none := by
    cases index with
    | none => rfl
    | some place =>
      rw [Option.bind_some] at h
      rw [Option.bind_some, h]
      rfl
  unfold declaratorFor
  rw [hnone]
  rfl

theorem declaratorFor_node {place : Nat} (hnode : nodes[place]? = some node) (limit : Nat) (expand : Bool) :
    info.declaratorFor nodes (limit + 1) expand (some place) =
      info.nodeDeclarator (info.declaratorFor nodes limit) nodes expand place node := by
  rw [declaratorFor, Option.bind_some, hnode]
  rfl

theorem declaratorFor_of_typeFor (h : info.typeFor nodes budget index = some type) {limit : Nat}
    (hlimit : 2 * budget ≤ limit) (expand : Bool) (opened : List Nat) :
    info.declaratorFor nodes limit expand index opened = .ok type.declarator opened := by
  induction budget generalizing index type limit expand opened with
  | zero =>
    rcases typeFor_cases h with ⟨hnone, rfl⟩ | ⟨place, node, rest, -, -, hrest, -⟩
    · exact declaratorFor_nothing hnone limit expand opened
    · cases hrest
  | succ budget ih =>
    rcases typeFor_cases h with ⟨hnone, rfl⟩ | ⟨place, node, rest, rfl, hnode, hrest, hstands⟩
    · exact declaratorFor_nothing hnone limit expand opened
    · obtain rfl := Nat.succ.inj hrest
      -- the type of a parameter lies two levels below its function, every other type one level
      obtain ⟨limit, rfl⟩ : ∃ less, limit = less + 2 := ⟨limit - 2, by omega⟩
      rw [declaratorFor_node hnode]
      refine nodeDeclarator_of_stands ⟨?_, ?_, fun _ _ => shape_of_typeFor⟩ hstands expand place opened
      · intro index type expand opened hnext
        exact ih hnext (by omega) expand opened
      · intro child node type opened hchild htag hnext
        have hkind : node.kind = .object := by
          rw [TypeNode.kind, htag]
          decide
        rw [declaratorFor_node hchild, nodeDeclarator, hkind]
        exact ih hnext (by omega) false opened

/-! ## How deep types lie -/

theorem NodeStands.mono (hread : ∀ index type, read index = some type → other index = some type)
    (h : info.NodeStands read nodes node type) : info.NodeStands other nodes node type := by
  have hparameters (children : List Nat) (types : List CType)
      (h : parameterTypes read nodes children = some types) : parameterTypes other nodes children = some types := by
    induction children generalizing types with
    | nil => exact h
    | cons child rest ih =>
      obtain ⟨node, hnode, h⟩ := Option.bind_eq_some_iff.mp h
      rw [parameterTypes, hnode]
      show (if node.tag = .formalParameter then _ else _ : Option (List CType)) = _
      split at h
      case isTrue htag =>
        obtain ⟨type, htype, h⟩ := Option.bind_eq_some_iff.mp h
        obtain ⟨others, hothers, h⟩ := Option.bind_eq_some_iff.mp h
        rw [if_pos htag, hread _ _ htype, ih _ hothers]
        exact h
      case isFalse htag =>
        rw [if_neg htag]
        split at h
        · cases h
        case isFalse hunspecified =>
          rw [if_neg hunspecified]
          exact ih _ h
  cases h with
  | base hkind hname => exact .base hkind hname
  | qualified hkind hnext => exact .qualified hkind (hread _ _ hnext)
  | pointer hkind hnext => exact .pointer hkind (hread _ _ hnext)
  | array hkind hdimensions hnext => exact .array hkind hdimensions (hread _ _ hnext)
  | function hkind htypes hof hnext => exact .function hkind (hparameters _ _ htypes) hof (hread _ _ hnext)

theorem typeFor_succ (h : info.typeFor nodes budget index = some type) :
    info.typeFor nodes (budget + 1) index = some type := by
  induction budget generalizing index type with
  | zero =>
    rcases typeFor_cases h with ⟨hnone, rfl⟩ | ⟨place, node, rest, -, -, hrest, -⟩
    · rw [typeFor, hnone]
    · cases hrest
  | succ budget ih =>
    rcases typeFor_cases h with ⟨hnone, rfl⟩ | ⟨place, node, rest, rfl, hnode, hrest, hstands⟩
    · rw [typeFor, hnone]
    · obtain rfl := Nat.succ.inj hrest
      rw [typeFor_node hnode]
      exact nodeType_iff.mpr (hstands.mono fun _ _ => ih)

theorem typeFor_mono {more : Nat} (hle : budget ≤ more) (h : info.typeFor nodes budget index = some type) :
    info.typeFor nodes more index = some type := by
  induction hle with
  | refl => exact h
  | step _ ih => exact typeFor_succ ih

/-- The nodes that stand for a type, at most `budget` nodes deep. -/
def standing (info : DebugInfo) (nodes : TypeGraph) (budget : Nat) : Finset Nat :=
  (Finset.range nodes.size).filter fun place => (info.typeFor nodes budget (some place)).isSome

theorem standing_mono {more : Nat} (hle : budget ≤ more) : info.standing nodes budget ⊆ info.standing nodes more := by
  intro place hplace
  simp only [standing, Finset.mem_filter, Option.isSome_iff_exists] at hplace ⊢
  obtain ⟨hlt, type, htype⟩ := hplace
  exact ⟨hlt, type, typeFor_mono hle htype⟩

theorem typeFor_eq_of_standing {more : Nat} (hle : budget ≤ more)
    (h : info.standing nodes budget = info.standing nodes more) :
    info.typeFor nodes budget = info.typeFor nodes more := by
  funext index
  cases htype : info.typeFor nodes more index with
  | none =>
    cases hless : info.typeFor nodes budget index with
    | none => rfl
    | some type => cases (typeFor_mono hle hless).symm.trans htype
  | some type =>
    rcases typeFor_cases htype with ⟨hnone, rfl⟩ | ⟨place, node, rest, rfl, hnode, -, -⟩
    · rw [typeFor, hnone]
    · have hmem : place ∈ info.standing nodes more := by
        simp only [standing, Finset.mem_filter, Finset.mem_range, htype]
        exact ⟨(Array.getElem?_eq_some_iff.mp hnode).choose, rfl⟩
      rw [← h] at hmem
      obtain ⟨found, hfound⟩ := Option.isSome_iff_exists.mp (Finset.mem_filter.mp hmem).2
      rw [hfound, ← htype, typeFor_mono hle hfound]

theorem typeFor_congr {more : Nat} (h : info.typeFor nodes budget = info.typeFor nodes more) :
    info.typeFor nodes (budget + 1) = info.typeFor nodes (more + 1) := by
  funext index
  unfold typeFor
  dsimp only
  rw [h]

theorem typeFor_size (h : info.typeFor nodes budget index = some type) :
    info.typeFor nodes nodes.size index = some type := by
  rcases Nat.le_total budget nodes.size with hle | hle
  · exact typeFor_mono hle h
  · -- a level adds a node, or no level behind it does; there are as many levels as nodes at most
    have hcard : (info.standing nodes budget).card = (info.standing nodes nodes.size).card := by
      refine Nat.stabilises_of_monotone (f := fun budget => (info.standing nodes budget).card)
        (fun _ _ hle => Finset.card_le_card (standing_mono hle)) (fun budget => ?_) (fun budget heq => ?_) hle
      · exact (Finset.card_filter_le _ _).trans_eq (Finset.card_range _)
      · have hlevel := typeFor_eq_of_standing (Nat.le_succ budget)
          (Finset.eq_of_subset_of_card_le (standing_mono (Nat.le_succ budget)) heq.ge)
        simp only [standing, typeFor_congr hlevel]
    rw [typeFor_eq_of_standing hle (Finset.eq_of_subset_of_card_le (standing_mono hle) hcard.le)]
    exact h

theorem typeName_of_typeFor (h : info.typeFor nodes budget index = some type) :
    info.typeName nodes index = .ok type.declarator.text := by
  have hdepth : 2 * nodes.size ≤ TypeGraph.depth nodes := by
    have hsquare : (nodes.size + 1) * (nodes.size + 1) = nodes.size * nodes.size + 2 * nodes.size + 1 := by grind
    rw [TypeGraph.depth, hsquare]
    omega
  have hprint := declaratorFor_of_typeFor (typeFor_size h) hdepth false []
  unfold typeName declarator Printing.eval
  rw [hprint]
  rfl

end DebugInfo

end FirmwareDebug
