import FirmwareDebug.Declarator
import Mathlib.Data.List.Chain
import Mathlib.Data.List.Nodup
import Mathlib.Data.List.Perm.Subperm
import Mathlib.Data.List.Range
import Mathlib.Logic.Relation

/-!
# Cycles through aggregates

A walk over a type graph stops at an aggregate that is open already. Where no cycle avoids the
aggregates, a path that opens none comes to no node twice; so a walk goes no deeper than the number of
aggregates that can still be opened, times the longest path between two of them.
-/

namespace FirmwareDebug

namespace TypeGraph

variable {nodes : TypeGraph} {i j : Nat}

/-- A node refers to the node of its type and to the nodes of its children. -/
def Refers (nodes : TypeGraph) (i j : Nat) : Prop :=
  ∃ node, nodes[i]? = some node ∧ (node.next = some j ∨ j ∈ node.children)

/-- A structure, a union or a class. -/
def IsAggregate (nodes : TypeGraph) (i : Nat) : Prop := ∃ keyword, nodes.kind? (some i) = some (.aggregate keyword)

/-- Every way from a node back to itself comes through an aggregate. -/
def CyclesPassAggregates (nodes : TypeGraph) : Prop :=
  ∀ first rest, List.IsChain nodes.Refers (first :: (rest ++ [first])) → ∃ i ∈ first :: rest, nodes.IsAggregate i

/-- A step of a walk that opens no aggregate. -/
def Leads (nodes : TypeGraph) (i j : Nat) : Prop := nodes.Refers i j ∧ ¬ nodes.IsAggregate i

theorem kind?_of_node {node : TypeNode} (h : nodes[i]? = some node) : nodes.kind? (some i) = some node.kind := by
  unfold kind?
  rw [Option.bind_eq_bind, Option.bind_some, h]
  rfl

theorem isAggregate_iff {node : TypeNode} (h : nodes[i]? = some node) :
    nodes.IsAggregate i ↔ ∃ keyword, node.kind = .aggregate keyword := by
  unfold IsAggregate
  rw [kind?_of_node h]
  simp only [Option.some.injEq]

theorem lookup_nothing {index : Option Nat} (h : index.bind (nodes[·]?) = none) :
    (index.bind fun index => nodes[index]?.map fun node => (index, node)) = none := by
  cases index with
  | none => rfl
  | some index =>
    rw [Option.bind_some] at h
    rw [Option.bind_some, h, Option.map_none]

theorem lookup_node {node : TypeNode} (h : nodes[i]? = some node) :
    ((some i).bind fun index => nodes[index]?.map fun node => (index, node)) = some (i, node) := by
  rw [Option.bind_some, h, Option.map_some]

/-! ## Paths between aggregates -/

theorem exists_path (h : Relation.TransGen nodes.Leads i j) :
    ∃ rest, List.IsChain nodes.Refers (i :: (rest ++ [j])) ∧ ∀ x ∈ i :: rest, ¬ nodes.IsAggregate x := by
  induction h using Relation.TransGen.head_induction_on with
  | single hstep => exact ⟨[], by simpa using hstep.1, by simpa using hstep.2⟩
  | head hstep _ ih =>
    obtain ⟨rest, hchain, hnone⟩ := ih
    exact ⟨_ :: rest, List.isChain_cons_cons.mpr ⟨hstep.1, hchain⟩, List.forall_mem_cons.mpr ⟨hstep.2, hnone⟩⟩

theorem CyclesPassAggregates.acyclic (h : nodes.CyclesPassAggregates) : ¬ Relation.TransGen nodes.Leads i i := by
  intro hcycle
  obtain ⟨rest, hchain, hnone⟩ := exists_path hcycle
  obtain ⟨x, hx, haggregate⟩ := h i rest hchain
  exact hnone x hx haggregate

theorem cyclesPassAggregates_of_rank (rank : Nat → Nat)
    (h : ∀ i j, nodes.Leads i j → ¬ nodes.IsAggregate j → rank j < rank i) : nodes.CyclesPassAggregates := by
  intro first rest hchain
  by_contra hnone
  have hother : ∀ x ∈ first :: rest, ¬ nodes.IsAggregate x := fun x hx haggregate => hnone ⟨x, hx, haggregate⟩
  have hfalls : List.IsChain (fun i j => rank j < rank i) (first :: (rest ++ [first])) := by
    refine hchain.imp_of_mem_imp fun i j hi hj hrefers => ?_
    have hmem : ∀ x ∈ first :: (rest ++ [first]), x ∈ first :: rest := by
      intro x hx
      simpa [or_comm] using hx
    exact h i j ⟨hrefers, hother i (hmem i hi)⟩ (hother j (hmem j hj))
  have : Trans (fun i j => rank j < rank i) (fun i j => rank j < rank i) fun i j => rank j < rank i :=
    ⟨fun h h' => Nat.lt_trans h' h⟩
  exact Nat.lt_irrefl _ ((List.pairwise_cons.mp hfalls.pairwise).1 first (by simp))

/-! ## How deep a walk can be -/

/-- Nodes of a graph, each of them once. -/
structure Distinct (nodes : TypeGraph) (l : List Nat) : Prop where
  nodup : l.Nodup
  lt : ∀ i ∈ l, i < nodes.size

namespace Distinct

theorem nil : Distinct nodes [] := ⟨List.nodup_nil, List.forall_mem_nil _⟩

theorem cons {l : List Nat} (h : Distinct nodes l) (hlt : i < nodes.size) (hnew : i ∉ l) : Distinct nodes (i :: l) :=
  ⟨List.nodup_cons.mpr ⟨hnew, h.nodup⟩, List.forall_mem_cons.mpr ⟨hlt, h.lt⟩⟩

theorem length_le {l : List Nat} (h : Distinct nodes l) : l.length ≤ nodes.size := by
  have hsubset : l ⊆ List.range nodes.size := fun i hi => List.mem_range.mpr (h.lt i hi)
  simpa using (h.nodup.subperm hsubset).length_le

end Distinct

/-- How deep a walk can still go, with some aggregates open and a path walked since the last was opened. -/
def room (nodes : TypeGraph) (opened path : List Nat) : Nat :=
  (nodes.size - opened.length) * (nodes.size + 1) + (nodes.size - path.length)

theorem room_step {opened path : List Nat} (h : Distinct nodes (i :: path)) :
    nodes.room opened (i :: path) < nodes.room opened path := by
  have hlength := h.length_le
  rw [List.length_cons] at hlength
  unfold room
  rw [List.length_cons]
  omega

theorem room_open {opened path : List Nat} (h : Distinct nodes (i :: opened)) :
    nodes.room (i :: opened) [] < nodes.room opened path := by
  have hlength := h.length_le
  rw [List.length_cons] at hlength
  obtain ⟨rest, hrest⟩ : ∃ rest, nodes.size - opened.length = rest + 1 := ⟨nodes.size - opened.length - 1, by omega⟩
  unfold room
  rw [List.length_cons, List.length_nil, Nat.sub_add_eq, hrest, Nat.add_sub_cancel, Nat.succ_mul]
  omega

/-- The path that a walk took to a node: it opens no aggregate, and nothing comes twice on it. -/
structure PathTo (nodes : TypeGraph) (path : List Nat) (index : Option Nat) : Prop extends Distinct nodes path where
  leads : ∀ i ∈ path, ∀ j ∈ index, Relation.TransGen nodes.Leads i j

namespace PathTo

variable {path : List Nat} {next : Option Nat}

theorem nil (index : Option Nat) : PathTo nodes [] index := ⟨.nil, List.forall_mem_nil _⟩

theorem step (hcycles : nodes.CyclesPassAggregates) (h : PathTo nodes path (some i)) (hlt : i < nodes.size)
    (hnext : ∀ j ∈ next, nodes.Leads i j) : PathTo nodes (i :: path) next := by
  have hnew : i ∉ path := fun hi => hcycles.acyclic (h.leads i hi i rfl)
  refine ⟨h.toDistinct.cons hlt hnew, List.forall_mem_cons.mpr ⟨?_, ?_⟩⟩
  · exact fun j hj => .single (hnext j hj)
  · exact fun x hx j hj => (h.leads x hx i rfl).tail (hnext j hj)

end PathTo

section

variable {motive : (budget other : Nat) → (opened : List Nat) → (index : Option Nat) → Prop}

/--
Two walks over a graph, each with its own bound, agree on a node if they agree where there is no node, and
on each node if they agree on the nodes that it leads to, and on all nodes once it is open.
-/
theorem CyclesPassAggregates.walk (hcycles : nodes.CyclesPassAggregates)
    (missing : ∀ budget other opened index, index.bind (nodes[·]?) = none →
      motive (budget + 1) (other + 1) opened index)
    (level : ∀ budget other opened i node, nodes[i]? = some node →
      (¬ nodes.IsAggregate i → ∀ next, (∀ j ∈ next, nodes.Refers i j) → motive budget other opened next) →
      (i ∉ opened → ∀ next, motive budget other (i :: opened) next) →
      motive (budget + 1) (other + 1) opened (some i))
    {budget other : Nat} (hbudget : DebugInfo.TypeGraph.depth nodes ≤ budget) (hother : DebugInfo.TypeGraph.depth nodes ≤ other) (index : Option Nat) :
    motive budget other [] index := by
  have hwalk : ∀ (budget other : Nat) (opened path : List Nat) (index : Option Nat), Distinct nodes opened →
      PathTo nodes path index → nodes.room opened path < budget → nodes.room opened path < other →
      motive budget other opened index := by
    intro budget
    induction budget with
    | zero =>
      intro _ _ _ _ _ _ hbudget
      cases hbudget
    | succ budget ih =>
      intro other opened path index hopened hpath hbudget hother
      obtain ⟨other, rfl⟩ : ∃ rest, other = rest + 1 := ⟨other - 1, by omega⟩
      cases hfound : index.bind (nodes[·]?) with
      | none => exact missing budget other opened index hfound
      | some node =>
        obtain ⟨i, rfl, hnode⟩ := Option.bind_eq_some_iff.mp hfound
        have hlt := (Array.getElem?_eq_some_iff.mp hnode).choose
        refine level budget other opened i node hnode (fun hkind next hnext => ?_) fun hnew next => ?_
        · have hlonger := hpath.step hcycles hlt fun j hj => ⟨hnext j hj, hkind⟩
          have hless : nodes.room opened (i :: path) < nodes.room opened path := room_step hlonger.toDistinct
          exact ih other opened (i :: path) next hopened hlonger (by omega) (by omega)
        · have hmore := hopened.cons hlt hnew
          have hless : nodes.room (i :: opened) [] < nodes.room opened path := room_open hmore
          exact ih other (i :: opened) [] next hmore (.nil next) (by omega) (by omega)
  have hroom : nodes.room [] [] < DebugInfo.TypeGraph.depth nodes := by
    unfold room DebugInfo.TypeGraph.depth
    simp only [List.length_nil, Nat.sub_zero, Nat.succ_mul]
    omega
  exact hwalk budget other [] [] index .nil (.nil index) (by omega) (by omega)

end

end TypeGraph

end FirmwareDebug
