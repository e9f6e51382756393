import FirmwareDebug.Proofs.TypeGraph.Graph

/-!
# Types read behind other nodes

A reading that has forgotten what it knew takes no notice of the nodes that are there: it adds the nodes that
it would give on its own, with their numbers moved behind the others. What holds this together is that the
number of a node is only ever taken from the size of the graph, from what is known, or from a type read
before, and that these three move by the same distance.
-/

namespace FirmwareDebug

/-- The node with all nodes that it refers to so many places on. -/
def TypeNode.shift (distance : Nat) (node : TypeNode) : TypeNode :=
  { node with next := node.next.map (· + distance), children := node.children.map (· + distance) }

/-- The reading as it is when it began behind some nodes. -/
def TypeReading.behind (old : TypeGraph) (r : TypeReading) : TypeReading where
  nodes := old ++ r.nodes.map (.shift old.size)
  known := r.known.map fun (offset, index) => (offset, index + old.size)

namespace TypeReading

variable {old : TypeGraph} {r : TypeReading}

@[simp]
theorem size_behind : (r.behind old).nodes.size = r.nodes.size + old.size := by
  simp [behind, Nat.add_comm]

@[simp]
theorem getElem?_behind (index : Nat) :
    (r.behind old).nodes[index + old.size]? = r.nodes[index]?.map (.shift old.size) := by
  rw [behind, Array.getElem?_append_right (Nat.le_add_left _ _), Nat.add_sub_cancel, Array.getElem?_map]

@[simp]
theorem lookup_behind (offset : UInt32) :
    (r.behind old).known.lookup offset = (r.known.lookup offset).map (· + old.size) := by
  unfold behind
  dsimp only
  induction r.known with
  | nil => rfl
  | cons known rest ih =>
    rw [List.map_cons, List.lookup_cons, List.lookup_cons]
    cases offset == known.1 with
    | true => rfl
    | false => exact ih

theorem withNode_behind (entry : Entry) :
    DebugInfo.withNode (r.behind old) entry = (DebugInfo.withNode r entry).behind old := by
  have hnode : TypeNode.shift old.size { entry := entry.bare } = { entry := entry.bare } := rfl
  unfold DebugInfo.withNode
  rw [size_behind]
  simp only [behind, Array.map_push, Array.append_push, hnode, List.map_cons]

theorem modify_behind (index : Nat) {change other : TypeNode → TypeNode}
    (hchange : ∀ node, other (node.shift old.size) = (change node).shift old.size) :
    (r.behind old).nodes.modify (index + old.size) other =
      old ++ (r.nodes.modify index change).map (.shift old.size) := by
  apply Array.ext_getElem?
  intro place
  rw [Array.getElem?_modify, behind]
  rcases Nat.lt_or_ge place old.size with hold | hnew
  · rw [if_neg (by omega), Array.getElem?_append_left hold, Array.getElem?_append_left hold]
  · obtain ⟨place, rfl⟩ := Nat.exists_eq_add_of_le' hnew
    rw [Array.getElem?_append_right hnew, Array.getElem?_append_right hnew, Nat.add_sub_cancel,
      Array.getElem?_map, Array.getElem?_map, Array.getElem?_modify]
    by_cases hplace : index = place
    · subst hplace
      rw [if_pos rfl, if_pos rfl]
      cases r.nodes[index]? with
      | none => rfl
      | some node => exact congrArg some (hchange node)
    · rw [if_neg (by omega), if_neg hplace]

end TypeReading

/-! ## Runs behind other nodes -/

namespace TypeRead

open TypeReading

variable {α β γ δ : Type} {old : TypeGraph}

/-- An end of a run behind other nodes. -/
def endBehind (old : TypeGraph) (g : α → β) :
    EStateM.Result Fault TypeReading α → EStateM.Result Fault TypeReading β
  | .ok a r => .ok (g a) (r.behind old)
  | .error e r => .error e (r.behind old)

/-- Behind other nodes the second run does what the first one does on its own, and `g` gives its answers. -/
def RunsBehind (old : TypeGraph) (g : α → β) (run : TypeRead α) (other : TypeRead β) : Prop :=
  ∀ r : TypeReading, other (r.behind old) = endBehind old g (run r)

namespace RunsBehind

variable {g : α → β} {h : γ → δ}

theorem pure (a : α) : RunsBehind old g (pure a) (pure (g a)) := fun _ => rfl

theorem throw (e : Fault) : RunsBehind old g (throw e) (throw e) := fun _ => rfl

theorem bind {run : TypeRead α} {other : TypeRead β} {f : α → TypeRead γ} {f' : β → TypeRead δ}
    (hrun : RunsBehind old g run other) (hf : ∀ a, RunsBehind old h (f a) (f' (g a))) :
    RunsBehind old h (run >>= f) (other >>= f') := by
  intro r
  rw [run_bind, run_bind, hrun r]
  cases run r with
  | ok a r' => exact hf a r'
  | error e r' => rfl

theorem liftExcept (x : Except Fault α) : RunsBehind old id (liftExcept x) (liftExcept x) := by
  cases x with
  | error e => exact throw e
  | ok a => exact pure a

theorem get : RunsBehind old (behind old) get get := fun _ => rfl

theorem forM {step other : α → TypeRead PUnit} (hstep : ∀ a, RunsBehind old id (step a) (other a)) (l : List α) :
    RunsBehind old id (l.forM step) (l.forM other) := by
  induction l with
  | nil => exact pure _
  | cons a rest ih => exact (hstep a).bind fun _ => ih

theorem remember (offset : UInt32) (index : Nat) :
    RunsBehind old id (remember offset index) (remember offset (index + old.size)) := fun _ => rfl

theorem addNode (entry : Entry) : RunsBehind old (· + old.size) (addNode entry) (addNode entry) := by
  intro r
  show EStateM.Result.ok (r.behind old).nodes.size (DebugInfo.withNode (r.behind old) entry) = _
  rw [size_behind, withNode_behind]
  rfl

theorem changeNode (index : Nat) {change other : TypeNode → TypeNode}
    (hchange : ∀ node, other (node.shift old.size) = (change node).shift old.size) :
    RunsBehind old id (changeNode index change) (changeNode (index + old.size) other) := by
  intro r
  show EStateM.Result.ok PUnit.unit (TypeReading.mk ((r.behind old).nodes.modify _ other) (r.behind old).known) = _
  rw [modify_behind index hchange]
  rfl

end RunsBehind

end TypeRead

namespace DebugInfo

open TypeRead TypeReading

variable {info : DebugInfo} {old : TypeGraph} {read : UInt32 → TypeRead Nat}

section

variable (hread : ∀ offset, RunsBehind old (· + old.size) (read offset) (read offset))
include hread

theorem runsBehind_readChild (parent : Nat) (offset : UInt32) :
    RunsBehind old id (info.readChild read parent offset) (info.readChild read (parent + old.size) offset) := by
  apply (hread offset).bind
  intro child
  apply (RunsBehind.changeNode parent fun node => by simp [TypeNode.shift]).bind
  intro _
  apply RunsBehind.get.bind
  intro r
  have htag : ((r.behind old).nodes[child + old.size]?.any fun node => node.tag = .subrangeType) =
      (r.nodes[child]?.any fun node => node.tag = .subrangeType) := by
    rw [getElem?_behind]
    cases r.nodes[child]? <;> rfl
  rw [htag]
  split
  · apply (RunsBehind.liftExcept _).bind
    intro dimension
    exact .changeNode parent fun node => by simp [TypeNode.shift]
  · exact .pure _

theorem runsBehind_readNode (offset : UInt32) :
    RunsBehind old (· + old.size) (info.readNode read offset) (info.readNode read offset) := by
  apply (RunsBehind.liftExcept _).bind
  intro tree
  apply (RunsBehind.addNode tree).bind
  intro index
  have hchildren : RunsBehind old (· + old.size)
      (do tree.children.forM fun child => info.readChild read index child.offset; return index)
      (do tree.children.forM fun child => info.readChild read (index + old.size) child.offset
          return index + old.size) :=
    (RunsBehind.forM (fun child => runsBehind_readChild hread index child.offset) tree.children).bind fun _ =>
      .pure index
  apply (RunsBehind.liftExcept _).bind
  intro type
  cases type with
  | none => exact hchildren
  | some type =>
    apply (hread type).bind
    intro next
    exact (RunsBehind.changeNode index fun node => by simp [TypeNode.shift]).bind fun _ => hchildren

theorem runsBehind_readStep (offset : UInt32) :
    RunsBehind old (· + old.size) (info.readStep read offset) (info.readStep read offset) := by
  apply RunsBehind.get.bind
  intro r
  rw [lookup_behind]
  cases r.known.lookup offset with
  | some index => exact .pure index
  | none =>
    apply (RunsBehind.liftExcept _).bind
    intro definition
    dsimp only [id]
    split
    · exact runsBehind_readNode hread offset
    · apply (hread definition).bind
      intro index
      exact (RunsBehind.remember offset index).bind fun _ => .pure index

end

theorem runsBehind_readTypeFor (budget : Nat) : ∀ offset,
    RunsBehind old (· + old.size) (info.readTypeFor budget offset) (info.readTypeFor budget offset) := by
  induction budget with
  | zero => exact fun _ => .throw _
  | succ budget ih => exact runsBehind_readStep ih

theorem root_of_readType {offset : UInt32} {index : Nat} {r : TypeReading}
    (hran : info.readType offset {} = .ok index r) : index = 0 :=
  (sound_readTypeFor _ _ _ _ _ consistent_empty hran).2.2 rfl

/--
Whatever nodes are there and whatever entries the reading knew, a type that is read afresh gets the graph that
it has on its own, moved behind the nodes, and these stay as they are. It fails just where the reading on its
own does, with the same fault.
-/
theorem readTypeAfresh_behind (info : DebugInfo) (offset : UInt32) (r : TypeReading) :
    match info.typeGraph offset with
    | .ok graph => ∃ known, info.readTypeAfresh offset r =
        .ok r.nodes.size ⟨r.nodes ++ graph.map (.shift r.nodes.size), known⟩
    | .error e => ∃ rest known, info.readTypeAfresh offset r = .error e ⟨r.nodes ++ rest, known⟩ := by
  have hrun : RunsBehind r.nodes (· + r.nodes.size) (info.readType offset) (info.readType offset) :=
    runsBehind_readTypeFor _ offset
  have hempty : ({} : TypeReading).behind r.nodes = { r with known := [] } := by simp [behind]
  have hafresh : info.readTypeAfresh offset r = endBehind r.nodes (· + r.nodes.size) (info.readType offset {}) := by
    rw [← hrun, hempty]
    rfl
  rw [hafresh, typeGraph]
  cases hran : info.readType offset {} with
  | error e last => exact ⟨_, _, rfl⟩
  | ok index last =>
    obtain rfl := root_of_readType hran
    refine ⟨(last.behind r.nodes).known, ?_⟩
    simp only [endBehind, Nat.zero_add]
    rfl

end DebugInfo

end FirmwareDebug
