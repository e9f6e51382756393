import FirmwareDebug.Proofs.TreeInUnit
import FirmwareDebug.TypeGraph
import Mathlib.Data.Finset.Card
import Mathlib.Data.Finset.Dedup

/-!
# The reading of types ends

A type is read by reading the types that it needs. An entry is read only once, and all that are read are
in the index, so types lie in each other no deeper than twice the number of entries, whatever cycles their
attributes form: what would be done further down never matters.
-/

namespace FirmwareDebug

namespace DebugInfo

open TypeRead

variable {info : DebugInfo} {read other : UInt32 → TypeRead Nat} {offset : UInt32} {r r' : TypeReading}

/-- Read the type of an entry, with a way to read the types that it needs. -/
def readStep (info : DebugInfo) (read : UInt32 → TypeRead Nat) (offset : UInt32) : TypeRead Nat := do
  match (← get).known.lookup offset with
  | some index => return index
  | none =>
    let definition ← liftExcept (info.definitionOf offset)
    if definition = offset then info.readNode read offset
    else
      let index ← read definition
      remember offset index
      return index

@[simp]
theorem readTypeFor_succ (budget : Nat) : info.readTypeFor (budget + 1) = info.readStep (info.readTypeFor budget) :=
  rfl

theorem readStep_known {index : Nat} (h : r.known.lookup offset = some index) :
    info.readStep read offset r = .ok index r := by
  unfold readStep
  rw [run_bind]
  show (match r.known.lookup offset with | some index => pure index | none => _ : TypeRead Nat) r = _
  rw [h]
  rfl

theorem readStep_new (h : r.known.lookup offset = none) : info.readStep read offset r =
    (do
      let definition ← liftExcept (info.definitionOf offset)
      if definition = offset then info.readNode read offset
      else
        let index ← read definition
        remember offset index
        return index : TypeRead Nat) r := by
  unfold readStep
  rw [run_bind]
  show (match r.known.lookup offset with | some index => pure index | none => _ : TypeRead Nat) r = _
  rw [h]

/-- What is read when there is a node for an entry: its type and then its children. -/
def readParts (info : DebugInfo) (read : UInt32 → TypeRead Nat) (offset : UInt32) (index : Nat)
    (children : List Entry) : TypeRead Nat := do
  match ← liftExcept (info.reference? offset .type) with
  | none => pure ()
  | some type =>
    let next ← read type
    changeNode index fun node => { node with next := some next }
  children.forM fun child => info.readChild read index child.offset
  return index

/-- What is read so far with a new node for an entry. -/
def withNode (r : TypeReading) (entry : Entry) : TypeReading where
  nodes := r.nodes.push { entry := entry.bare }
  known := (entry.offset, r.nodes.size) :: r.known

theorem readNode_of_treeAt {tree : Entry} (h : info.treeAt offset (some 1) = .ok tree) :
    info.readNode read offset r = info.readParts read offset r.nodes.size tree.children (withNode r tree) := by
  unfold readNode
  rw [h]
  rfl

theorem offset_of_treeAt {levels : Option Nat} {tree : Entry} (h : info.treeAt offset levels = .ok tree) :
    tree.offset = offset := by
  obtain ⟨_, _, -, -, ⟨rfl, -⟩ | ⟨_, _, -, rfl, -⟩⟩ := treeAt_cases h <;> rfl

theorem definitionOf_definition {definition : UInt32} (h : info.definitionOf offset = .ok definition) :
    info.definitionOf definition = .ok definition := by
  have hend (steps : Nat) (place : UInt32) (h : info.definitionFor offset steps place = .ok definition) :
      info.firstReference definition [.abstractOrigin, .imported, .specification] = .ok none := by
    induction steps generalizing place with
    | zero => cases h
    | succ steps ih =>
      unfold definitionFor at h
      obtain ⟨next, hnext, h⟩ := ok_of_bind h
      cases next with
      | none =>
        cases h
        exact hnext
      | some next =>
        dsimp only at h
        split at h
        · cases h
        · exact ih next h
  unfold definitionOf maxOrigins definitionFor
  rw [hend _ _ h]
  rfl

/-! ## What is known stays known -/

abbrev Knows (known : UInt32) (r : TypeReading) : Prop := (r.known.lookup known).isSome

def KeepsKnown {α : Type} (run : TypeRead α) : Prop := ∀ known, Keeps (Knows known) (fun _ => True) run

namespace KeepsKnown

variable {α β : Type}

theorem pure (a : α) : KeepsKnown (pure a) := fun _ => .pure a

theorem bind {first : TypeRead α} {f : α → TypeRead β} (h : KeepsKnown first) (hf : ∀ a, KeepsKnown (f a)) :
    KeepsKnown (first >>= f) := fun known => (h known).bind fun a => hf a known

theorem liftExcept (x : Except Fault α) : KeepsKnown (liftExcept x) := fun _ => .liftExcept fun _ _ => trivial

theorem get : KeepsKnown get := fun _ => .get

theorem forM {step : α → TypeRead PUnit} (h : ∀ a, KeepsKnown (step a)) (l : List α) : KeepsKnown (l.forM step) := by
  induction l with
  | nil => exact pure _
  | cons a rest ih => exact (h a).bind fun _ => ih

theorem remember (offset : UInt32) (index : Nat) : KeepsKnown (remember offset index) := by
  refine fun known => .modify fun r h => ?_
  unfold Knows
  rw [List.lookup_cons]
  split
  · rfl
  · exact h

theorem changeNode (index : Nat) (change : TypeNode → TypeNode) : KeepsKnown (changeNode index change) :=
  fun _ => .modify fun _ h => h

theorem addNode (entry : Entry) : KeepsKnown (addNode entry) := by
  refine get.bind fun r => KeepsKnown.bind (fun _ => .modify fun _ h => h) fun _ => ?_
  exact (remember _ _).bind fun _ => pure _

end KeepsKnown

theorem keepsKnown_readChild (h : ∀ offset, KeepsKnown (read offset)) (parent : Nat) (child : UInt32) :
    KeepsKnown (info.readChild read parent child) := by
  refine (h child).bind fun index => (KeepsKnown.changeNode _ _).bind fun _ => KeepsKnown.get.bind fun r => ?_
  split
  · exact (KeepsKnown.liftExcept _).bind fun _ => .changeNode _ _
  · exact .pure _

theorem keepsKnown_readParts (h : ∀ offset, KeepsKnown (read offset)) (offset : UInt32) (index : Nat)
    (children : List Entry) : KeepsKnown (info.readParts read offset index children) := by
  have hchild (child : Entry) : KeepsKnown (info.readChild read index child.offset) :=
    keepsKnown_readChild h index child.offset
  have hchildren := (KeepsKnown.forM hchild children).bind fun _ => .pure index
  refine (KeepsKnown.liftExcept _).bind fun type => ?_
  cases type with
  | none => exact hchildren
  | some type => exact (h type).bind fun next => (KeepsKnown.changeNode _ _).bind fun _ => hchildren

theorem keepsKnown_readStep (h : ∀ offset, KeepsKnown (read offset)) (offset : UInt32) :
    KeepsKnown (info.readStep read offset) := by
  refine KeepsKnown.get.bind fun r => ?_
  cases r.known.lookup offset with
  | some index => exact .pure _
  | none =>
    refine (KeepsKnown.liftExcept _).bind fun definition => ?_
    split
    · refine (KeepsKnown.liftExcept _).bind fun tree => (KeepsKnown.addNode tree).bind fun index => ?_
      exact keepsKnown_readParts h offset index tree.children
    · exact (h definition).bind fun index => (KeepsKnown.remember _ _).bind fun _ => .pure _

theorem keepsKnown_readTypeFor (budget : Nat) : ∀ offset, KeepsKnown (info.readTypeFor budget offset) := by
  induction budget with
  | zero => exact fun _ _ => .throw trivial
  | succ budget ih => exact keepsKnown_readStep ih

/-! ## Entries that are not read yet -/

/-- The entries of the index that do not stand for a node yet. -/
def unread (info : DebugInfo) (r : TypeReading) : Finset UInt32 :=
  (info.entries.toList.map IndexedEntry.offset).toFinset.filter fun offset => r.known.lookup offset = none

theorem card_unread_le (info : DebugInfo) (r : TypeReading) : (info.unread r).card ≤ info.entries.size := by
  calc (info.unread r).card
      ≤ (info.entries.toList.map IndexedEntry.offset).toFinset.card := Finset.card_filter_le _ _
    _ ≤ (info.entries.toList.map IndexedEntry.offset).length := List.toFinset_card_le _
    _ = info.entries.size := by simp

theorem unread_subset (h : ∀ known, Knows known r → Knows known r') : info.unread r' ⊆ info.unread r := by
  intro offset hoffset
  simp only [unread, Finset.mem_filter, ← Option.not_isSome_iff_eq_none] at hoffset ⊢
  exact ⟨hoffset.1, fun hknown => hoffset.2 (h offset hknown)⟩

theorem card_unread_le_of_ran (info : DebugInfo) {α : Type} {run : TypeRead α} (h : KeepsKnown run) {a : α}
    (hrun : run r = .ok a r') : (info.unread r').card ≤ (info.unread r).card := by
  refine Finset.card_le_card (unread_subset fun known hknown => ?_)
  have hkeeps := h known r hknown
  rwa [hrun] at hkeeps

theorem knows_withNode {entry : Entry} {known : UInt32} (h : Knows known r) : Knows known (withNode r entry) := by
  unfold Knows withNode
  rw [List.lookup_cons]
  split
  · rfl
  · exact h

theorem card_unread_withNode {levels : Option Nat} {tree : Entry} (htree : info.treeAt offset levels = .ok tree)
    (hnew : r.known.lookup offset = none) : (info.unread (withNode r tree)).card < (info.unread r).card := by
  obtain ⟨position, a, -, hentry, -⟩ := treeAt_cases htree
  have hmem : offset ∈ info.unread r := by
    simp only [unread, Finset.mem_filter, List.mem_toFinset, List.mem_map]
    exact ⟨⟨_, Array.mem_toList_iff.mpr (Array.mem_of_getElem? hentry), rfl⟩, hnew⟩
  refine Finset.card_lt_card ⟨unread_subset fun known => knows_withNode, fun hsubset => ?_⟩
  have hread := (Finset.mem_filter.mp (hsubset hmem)).2
  rw [withNode, List.lookup_cons, offset_of_treeAt htree, beq_self_eq_true] at hread
  cases hread

/-! ## What is done at the end of the budget does not matter -/

/-- The two ways to read agree as long as no more than `count` entries are not read yet. -/
def AgreeFor (info : DebugInfo) (count : Nat) (read other : UInt32 → TypeRead Nat) : Prop :=
  ∀ offset r, (info.unread r).card ≤ count → read offset r = other offset r

section

variable {count : Nat} (hagree : info.AgreeFor count read other) (hother : ∀ offset, KeepsKnown (other offset))
include hagree

theorem readChild_congr (parent : Nat) (child : UInt32) (hr : (info.unread r).card ≤ count) :
    info.readChild read parent child r = info.readChild other parent child r :=
  run_bind_congr (hagree child r hr) fun _ _ _ => rfl

include hother

theorem readChildren_congr (parent : Nat) (children : List Entry) (hr : (info.unread r).card ≤ count) :
    (children.forM fun child => info.readChild read parent child.offset : TypeRead PUnit) r =
      (children.forM fun child => info.readChild other parent child.offset : TypeRead PUnit) r := by
  induction children generalizing r with
  | nil => rfl
  | cons child rest ih =>
    refine run_bind_congr (readChild_congr hagree parent child.offset hr) fun _ r' hran => ?_
    exact ih (Nat.le_trans (info.card_unread_le_of_ran (keepsKnown_readChild hother _ _) hran) hr)

theorem readParts_congr (index : Nat) (children : List Entry) (hr : (info.unread r).card ≤ count) :
    info.readParts read offset index children r = info.readParts other offset index children r := by
  have hchildren (r' : TypeReading) (hr' : (info.unread r').card ≤ count) :
      (do children.forM fun child => info.readChild read index child.offset; return index : TypeRead Nat) r' =
        (do children.forM fun child => info.readChild other index child.offset; return index : TypeRead Nat) r' :=
    run_bind_congr (readChildren_congr hagree hother index children hr') fun _ _ _ => rfl
  unfold readParts
  cases info.reference? offset .type with
  | error e => rfl
  | ok type =>
    cases type with
    | none => exact hchildren r hr
    | some type =>
      show (read type >>= fun _ => _) r = (other type >>= fun _ => _) r
      refine run_bind_congr (hagree type r hr) fun next r' hran => ?_
      have hr' := Nat.le_trans (info.card_unread_le_of_ran (hother type) hran) hr
      exact hchildren _ hr'

end

/-- How deep reading an entry can go: two levels for each entry that is left, and one more for a definition. -/
def costOf (info : DebugInfo) (offset : UInt32) (r : TypeReading) : Nat :=
  2 * (info.unread r).card + if (info.definitionOf offset).toOption = some offset then 1 else 2

theorem readTypeFor_eq {ways : Nat → UInt32 → TypeRead Nat}
    (hways : ∀ budget offset, ways (budget + 1) offset = info.readStep (ways budget) offset) {budget limit : Nat}
    (hbudget : info.costOf offset r ≤ budget) (hlimit : info.costOf offset r ≤ limit) :
    ways budget offset r = info.readTypeFor limit offset r := by
  induction budget generalizing limit offset r with
  | zero =>
    unfold costOf at hbudget
    split at hbudget <;> omega
  | succ budget ih =>
    obtain ⟨limit, rfl⟩ : ∃ rest, limit = rest + 1 := by
      unfold costOf at hlimit
      split at hlimit <;> exact ⟨limit - 1, by omega⟩
    rw [hways, readTypeFor_succ]
    cases hknown : r.known.lookup offset with
    | some index => rw [readStep_known hknown, readStep_known hknown]
    | none =>
      rw [readStep_new hknown, readStep_new hknown]
      cases hdefinition : info.definitionOf offset with
      | error e => rfl
      | ok definition =>
        show (if definition = offset then _ else _ : TypeRead Nat) r =
          (if definition = offset then _ else _ : TypeRead Nat) r
        split
        case isTrue hown =>
          subst hown
          rw [costOf, if_pos (by rw [hdefinition]; rfl)] at hbudget hlimit
          cases htree : info.treeAt definition (some 1) with
          | error e =>
            unfold readNode
            rw [htree]
            rfl
          | ok tree =>
            rw [readNode_of_treeAt htree, readNode_of_treeAt htree]
            -- what is read below the new node finds one entry fewer
            have hless := card_unread_withNode htree hknown
            have hagree : info.AgreeFor (info.unread (withNode r tree)).card (ways budget)
                (info.readTypeFor limit) := by
              intro offset' r' hr'
              refine ih ?_ ?_ <;> unfold costOf <;> split <;> omega
            exact readParts_congr hagree (keepsKnown_readTypeFor limit) _ _ (Nat.le_refl _)
        case isFalse hother =>
          -- a definition is its own, so a step to it is followed by a new node
          have hend := definitionOf_definition hdefinition
          have hcost : info.costOf offset r = info.costOf definition r + 1 := by
            simp [costOf, hend, hdefinition, Except.toOption, hother]
          exact run_bind_congr (ih (by omega) (by omega)) fun _ _ _ => rfl

theorem costOf_le (offset : UInt32) (r : TypeReading) : info.costOf offset r ≤ 2 * info.entries.size + 2 := by
  have hcard := info.card_unread_le r
  unfold costOf
  split <;> omega

theorem ways_eq_readType (ways : Nat → UInt32 → TypeRead Nat)
    (hways : ∀ budget offset, ways (budget + 1) offset = info.readStep (ways budget) offset) {budget : Nat}
    (hbudget : 2 * info.entries.size + 2 ≤ budget) : ways budget = info.readType :=
  funext fun offset => funext fun r =>
    readTypeFor_eq hways (Nat.le_trans (costOf_le offset r) hbudget) (costOf_le offset r)

/-- Reading a type is the recursion without a budget. -/
theorem readType_eq (offset : UInt32) : info.readType offset = info.readStep info.readType offset := by
  have hmore : info.readTypeFor (2 * info.entries.size + 2 + 1) = info.readType :=
    ways_eq_readType info.readTypeFor (fun _ _ => rfl) (Nat.le_succ _)
  rw [readTypeFor_succ] at hmore
  exact (congrFun hmore offset).symm

end DebugInfo

end FirmwareDebug
