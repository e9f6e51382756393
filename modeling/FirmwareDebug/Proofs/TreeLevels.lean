import FirmwareDebug.Proofs.TreeInUnit

/-!
# Trees of some levels

The children of an entry end at one place, whether they are read, counted or passed over by a sibling attribute
that tells the truth. So a tree of some levels is the whole tree without what is below them.
-/

namespace FirmwareDebug

namespace Entry

mutual

/-- The tree without what is more than `levels` levels below its root. -/
def upTo (levels : Nat) : Entry → Entry
  | ⟨tag, offset, abbreviation, hasChildren, children⟩ =>
    ⟨tag, offset, abbreviation, hasChildren,
      match levels with
      | 0 => []
      | levels + 1 => eachUpTo levels children⟩

def eachUpTo (levels : Nat) : List Entry → List Entry
  | [] => []
  | entry :: rest => upTo levels entry :: eachUpTo levels rest

end

variable {offset : UInt32} {a : Abbreviation} {children siblings : List Entry}

@[simp]
theorem upTo_leaf (levels : Nat) :
    (Entry.ofAbbreviation offset a []).upTo levels = .ofAbbreviation offset a [] := by
  cases levels <;> rfl

@[simp]
theorem upTo_zero : (Entry.ofAbbreviation offset a children).upTo 0 = .ofAbbreviation offset a [] := rfl

@[simp]
theorem upTo_succ (levels : Nat) : (Entry.ofAbbreviation offset a children).upTo (levels + 1) =
    .ofAbbreviation offset a (eachUpTo levels children) := rfl

end Entry

theorem countToClose_lt {opened count : Nat} {row : List IndexedEntry} (h : countToClose opened row = some count) :
    count < row.length := by
  induction row generalizing opened count with
  | nil => cases h
  | cons e rest ih =>
    obtain ⟨offset, abbreviation⟩ := e
    rw [List.length_cons]
    cases abbreviation with
    | none =>
      cases opened with
      | zero =>
        cases h
        omega
      | succ opened =>
        simp only [countToClose, Option.map_eq_some_iff] at h
        obtain ⟨before, hbefore, rfl⟩ := h
        have := ih hbefore
        omega
    | some a =>
      simp only [countToClose, Option.map_eq_some_iff] at h
      obtain ⟨before, hbefore, rfl⟩ := h
      have := ih hbefore
      omega

theorem countToClose_behind {opened count inner : Nat} {row : List IndexedEntry}
    (h : countToClose (opened + 1) row = some count) (hinner : countToClose opened row = some inner) :
    countToClose 0 (row.drop (inner + 1)) = some (count - (inner + 1)) := by
  induction row generalizing opened count inner with
  | nil => cases h
  | cons e rest ih =>
    obtain ⟨offset, abbreviation⟩ := e
    rw [List.drop_succ_cons]
    cases abbreviation with
    | none =>
      simp only [countToClose, Option.map_eq_some_iff] at h
      obtain ⟨before, hbefore, rfl⟩ := h
      cases opened with
      | zero =>
        cases hinner
        exact hbefore
      | succ opened =>
        simp only [countToClose, Option.map_eq_some_iff] at hinner
        obtain ⟨less, hless, rfl⟩ := hinner
        rw [ih hbefore hless]
        congr 1
        omega
    | some a =>
      simp only [countToClose, Option.map_eq_some_iff] at h hinner
      obtain ⟨before, hbefore, rfl⟩ := h
      obtain ⟨less, hless, rfl⟩ := hinner
      have hopened : (if a.hasChildren then opened + 1 + 1 else opened + 1) =
          (if a.hasChildren then opened + 1 else opened) + 1 := by split <;> rfl
      rw [hopened] at hbefore
      rw [ih hbefore hless]
      congr 1
      omega

namespace DebugInfo

variable {info : DebugInfo} {budget position next : Nat} {parent offset : UInt32} {levels : Option Nat}
  {a : Abbreviation} {children siblings : List Entry}

/-! ## The end of an entry -/

/-- The place directly behind an entry and all that is inside it, if its list of children has an end. -/
def endOf (info : DebugInfo) (position : Nat) : Option Nat :=
  match info.entries[position]? with
  | some ⟨_, some a⟩ => if a.hasChildren then (info.closeOf (position + 1)).map (· + 1) else some (position + 1)
  | _ => none

/-- The sibling attribute at a place, if there is one, can be read and names what is directly behind the entry. -/
def siblingTells (info : DebugInfo) (position : Nat) : Bool :=
  match info.entries[position]? with
  | some ⟨offset, some a⟩ =>
    if a.has .sibling then
      match info.reference? offset .sibling, info.endOf position with
      | .ok (some sibling), some next => info.position? sibling = some next
      | .ok _, _ => true
      | .error _, _ => false
    else true
  | _ => true

/-- Every sibling attribute tells where its entry ends. -/
def SiblingsTell (info : DebugInfo) : Prop := ∀ position, info.siblingTells position = true

theorem siblingsTell_iff : info.SiblingsTell ↔ ∀ position < info.entries.size, info.siblingTells position = true := by
  constructor
  · exact fun h position _ => h position
  · intro h position
    rcases Nat.lt_or_ge position info.entries.size with hlt | hge
    · exact h position hlt
    · simp only [siblingTells, Array.getElem?_eq_none hge]

instance (info : DebugInfo) : Decidable info.SiblingsTell := decidable_of_iff _ siblingsTell_iff.symm

theorem endOf_eq (hentry : info.entries[position]? = some ⟨offset, some a⟩) (ha : a.hasChildren = true) :
    info.endOf position = (info.closeOf (position + 1)).map (· + 1) := by
  simp only [endOf, hentry, ha, if_true]

theorem lt_of_endOf (h : info.endOf position = some next) : position < next := by
  unfold endOf at h
  split at h
  · split at h
    · obtain ⟨null, hnull, rfl⟩ := Option.map_eq_some_iff.mp h
      obtain ⟨count, -, rfl⟩ := closeOf_eq_some.mp hnull
      omega
    · cases h
      omega
  · cases h

theorem row_of_countToClose {opened count : Nat}
    (h : countToClose opened (info.entries.toList.drop position) = some count) :
    ∃ e, info.entries[position]? = some e ∧
      info.entries.toList.drop position = e :: info.entries.toList.drop (position + 1) := by
  cases hentry : info.entries[position]? with
  | none =>
    have hbehind := Array.getElem?_eq_none_iff.mp hentry
    rw [List.drop_of_length_le (by simpa using hbehind)] at h
    cases h
  | some e => exact ⟨e, rfl, drop_of_getElem? hentry⟩

theorem closeAfter_of_countToClose {opened count : Nat}
    (h : countToClose opened (info.entries.toList.drop position) = some count) (hbudget : count < budget) :
    info.closeAfter parent budget opened position = .ok (position + count + 1) := by
  induction budget generalizing opened position count with
  | zero => cases hbudget
  | succ budget ih =>
    obtain ⟨⟨offset, abbreviation⟩, hentry, hrow⟩ := row_of_countToClose h
    rw [hrow] at h
    unfold closeAfter
    cases abbreviation with
    | none =>
      cases opened with
      | zero =>
        cases h
        simp only [hentry]
      | succ opened =>
        simp only [countToClose, Option.map_eq_some_iff] at h
        obtain ⟨before, hbefore, rfl⟩ := h
        simp only [hentry, ih hbefore (by omega)]
        congr 1
        omega
    | some a =>
      simp only [countToClose, Option.map_eq_some_iff] at h
      obtain ⟨before, hbefore, rfl⟩ := h
      simp only [hentry, ih hbefore (by omega)]
      congr 1
      omega

theorem count_of_closeOf {null : Nat} (h : info.closeOf position = some null) :
    ∃ count, countToClose 0 (info.entries.toList.drop position) = some count ∧ count < info.entries.size + 1 ∧
      null = position + count := by
  obtain ⟨count, hcount, rfl⟩ := closeOf_eq_some.mp h
  have hlt := countToClose_lt hcount
  rw [List.length_drop, Array.length_toList] at hlt
  exact ⟨count, hcount, by omega, rfl⟩

theorem closeAfter_of_closeOf {null : Nat} (h : info.closeOf position = some null) :
    info.closeAfter parent (info.entries.size + 1) 0 position = .ok (null + 1) := by
  obtain ⟨count, hcount, hbudget, rfl⟩ := count_of_closeOf h
  exact closeAfter_of_countToClose hcount hbudget

theorem closeAfter_of_endOf (hentry : info.entries[position]? = some ⟨offset, some a⟩) (ha : a.hasChildren = true)
    (h : info.endOf position = some next) :
    info.closeAfter parent (info.entries.size + 1) 0 (position + 1) = .ok next := by
  rw [endOf_eq hentry ha, Option.map_eq_some_iff] at h
  obtain ⟨null, hnull, rfl⟩ := h
  exact closeAfter_of_closeOf hnull

theorem siblingPosition_of_tells (htells : info.siblingTells position = true)
    (hentry : info.entries[position]? = some ⟨offset, some a⟩) (h : info.endOf position = some next) :
    info.siblingPosition offset a position = .ok none ∨ info.siblingPosition offset a position = .ok (some next) := by
  simp only [siblingTells, hentry, h] at htells
  unfold siblingPosition
  cases hhas : a.has .sibling with
  | false => exact .inl rfl
  | true =>
    rw [hhas] at htells
    cases hread : info.reference? offset .sibling with
    | error e => simp [hread] at htells
    | ok value =>
      cases value with
      | none => exact .inl rfl
      | some sibling =>
        right
        simp only [hread, if_true, decide_eq_true_eq] at htells
        have hahead := lt_of_endOf h
        simp only [Bool.not_true, Bool.false_eq_true, if_false]
        show Except.ok (((some sibling).bind info.position?).filter fun next => position < next) = _
        rw [Option.bind_some, htells, Option.filter_some, if_pos (by simpa using hahead)]

theorem passChildren_of_tells (htells : info.siblingTells position = true)
    (hentry : info.entries[position]? = some ⟨offset, some a⟩) (ha : a.hasChildren = true)
    (h : info.endOf position = some next) : info.passChildren offset a position = .ok next := by
  unfold passChildren
  rcases siblingPosition_of_tells htells hentry h with hsibling | hsibling
  · rw [hsibling]
    exact closeAfter_of_endOf hentry ha h
  · rw [hsibling]
    rfl

/-! ## Reading some levels -/

theorem childrenFrom_next (h : info.childrenFrom budget parent none position = .ok (children, next)) :
    position < next ∧ next ≤ info.entries.size := by
  induction budget generalizing parent position children next with
  | zero => cases h
  | succ budget ih =>
    rcases childrenFrom_cases h with ⟨null, hentry, -, rfl⟩ |
      ⟨offset, a, inner, after, siblings, hentry, hinner, hsiblings, -⟩
    · obtain ⟨hlt, -⟩ := Array.getElem?_eq_some_iff.mp hentry
      omega
    · obtain ⟨hafter, hnext⟩ := ih hsiblings
      cases hinner with
      | leaf ha => omega
      | passed ha hlevels hpass => cases hlevels
      | read ha hread =>
        obtain ⟨hinside, -⟩ := ih hread
        omega

theorem closeOf_of_childrenFrom (h : info.childrenFrom budget parent none position = .ok (children, next)) :
    ∃ null, info.closeOf position = some null ∧ next = null + 1 := by
  obtain ⟨row, null, hrow, hspells⟩ := spells_of_childrenFrom h
  obtain ⟨hahead, hnext⟩ := childrenFrom_next h
  have hlength := congrArg List.length hrow
  simp only [List.length_drop, List.length_append, List.length_cons, Array.length_toList] at hlength
  refine ⟨position + row.length, ?_, by omega⟩
  rw [closeOf, hrow, hspells.countToClose_append]
  rfl

theorem endOf_of_childrenFrom (hentry : info.entries[position]? = some ⟨offset, some a⟩) (ha : a.hasChildren = true)
    (h : info.childrenFrom budget parent none (position + 1) = .ok (children, next)) :
    info.endOf position = some next := by
  obtain ⟨null, hnull, rfl⟩ := closeOf_of_childrenFrom h
  rw [endOf_eq hentry ha, hnull, Option.map_some]

theorem childrenFrom_null {null : UInt32} (hentry : info.entries[position]? = some ⟨null, none⟩) :
    info.childrenFrom (budget + 1) parent levels position = .ok ([], position + 1) := by
  simp only [childrenFrom, hentry]

theorem childrenFrom_leaf (hentry : info.entries[position]? = some ⟨offset, some a⟩) (ha : a.hasChildren = false)
    (h : info.childrenFrom budget parent levels (position + 1) = .ok (siblings, next)) :
    info.childrenFrom (budget + 1) parent levels position = .ok (.ofAbbreviation offset a [] :: siblings, next) := by
  simp only [childrenFrom, hentry, ha, Bool.not_false, if_true]
  simp only [h, bind, Except.bind, pure, Except.pure]

theorem childrenFrom_passed {after : Nat} (hentry : info.entries[position]? = some ⟨offset, some a⟩)
    (ha : a.hasChildren = true) (hpass : info.passChildren offset a position = .ok after)
    (h : info.childrenFrom budget parent (some 0) after = .ok (siblings, next)) :
    info.childrenFrom (budget + 1) parent (some 0) position = .ok (.ofAbbreviation offset a [] :: siblings, next) := by
  simp only [childrenFrom, hentry, ha, Bool.not_true, Bool.false_eq_true, if_false, hpass]
  simp only [h, bind, Except.bind, pure, Except.pure]

theorem childrenFrom_read {after : Nat} (hentry : info.entries[position]? = some ⟨offset, some a⟩)
    (ha : a.hasChildren = true) (hlevels : levels ≠ some 0)
    (hread : info.childrenFrom budget offset (levels.map (· - 1)) (position + 1) = .ok (children, after))
    (h : info.childrenFrom budget parent levels after = .ok (siblings, next)) :
    info.childrenFrom (budget + 1) parent levels position = .ok (.ofAbbreviation offset a children :: siblings, next) := by
  simp only [childrenFrom, hentry, ha, Bool.not_true, Bool.false_eq_true, if_false, hread]
  simp only [h, bind, Except.bind, pure, Except.pure]

theorem childrenFrom_of_countToClose (parent : UInt32) {count : Nat}
    (h : countToClose 0 (info.entries.toList.drop position) = some count) (hbudget : count < budget) :
    ∃ children, info.childrenFrom budget parent none position = .ok (children, position + count + 1) := by
  induction budget generalizing parent position count with
  | zero => cases hbudget
  | succ budget ih =>
    obtain ⟨⟨offset, abbreviation⟩, hentry, hrow⟩ := row_of_countToClose h
    rw [hrow] at h
    cases abbreviation with
    | none =>
      cases h
      exact ⟨[], childrenFrom_null hentry⟩
    | some a =>
      simp only [countToClose, Option.map_eq_some_iff] at h
      obtain ⟨before, hbefore, rfl⟩ := h
      cases ha : a.hasChildren with
      | false =>
        rw [ha, if_neg Bool.false_ne_true] at hbefore
        obtain ⟨siblings, hsiblings⟩ := ih parent hbefore (by omega)
        rw [show position + (before + 1) + 1 = position + 1 + before + 1 by omega]
        exact ⟨_, childrenFrom_leaf hentry ha hsiblings⟩
      | true =>
        -- The children's own list ends first, and the list that they stand in goes on behind it.
        rw [ha, if_pos rfl] at hbefore
        obtain ⟨inner, hinner, hlt⟩ := countToClose_succ hbefore
        have hrest := countToClose_behind hbefore hinner
        rw [List.drop_drop, ← Nat.add_assoc] at hrest
        obtain ⟨children, hchildren⟩ := ih offset hinner (by omega)
        obtain ⟨siblings, hsiblings⟩ := ih parent hrest (by omega)
        rw [show position + (before + 1) + 1 = position + 1 + (inner + 1) + (before - (inner + 1)) + 1 by omega]
        exact ⟨_, childrenFrom_read hentry ha (Option.some_ne_none _).symm hchildren hsiblings⟩

/-- Where all children can be read, some levels of them can be too, and reading goes on at the same place. -/
theorem childrenFrom_upTo (hsiblings : info.SiblingsTell)
    (h : info.childrenFrom budget parent none position = .ok (children, next)) (levels : Nat) :
    info.childrenFrom budget parent (some levels) position = .ok (Entry.eachUpTo levels children, next) := by
  induction budget generalizing parent position children next levels with
  | zero => cases h
  | succ budget ih =>
    rcases childrenFrom_cases h with ⟨null, hentry, rfl, rfl⟩ |
      ⟨offset, a, inner, after, siblings, hentry, hinner, hrest, rfl⟩
    · exact childrenFrom_null hentry
    · rw [Entry.eachUpTo]
      cases hinner with
      | leaf ha =>
        rw [Entry.upTo_leaf]
        exact childrenFrom_leaf hentry ha (ih hrest levels)
      | passed ha hlevels hpass => cases hlevels
      | read ha hread =>
        cases levels with
        | zero =>
          -- The children are passed over, to the place where reading them has ended.
          have hend := endOf_of_childrenFrom hentry ha hread
          rw [Entry.upTo_zero]
          exact childrenFrom_passed hentry ha (passChildren_of_tells (hsiblings position) hentry ha hend) (ih hrest 0)
        | succ levels =>
          rw [Entry.upTo_succ]
          exact childrenFrom_read hentry ha (by simp) (ih hread levels) (ih hrest (levels + 1))

theorem treeAt_of_locate (hlocate : info.locate offset = .ok (position, a)) (levels : Nat) :
    info.treeAt offset (some levels) = (do
      if !a.hasChildren then return .ofAbbreviation offset a []
      match levels with
      | 0 =>
        discard (info.passChildren offset a position)
        return .ofAbbreviation offset a []
      | levels + 1 =>
        let (children, _) ← info.childrenFrom (info.entries.size + 1) offset (some levels) (position + 1)
        return .ofAbbreviation offset a children) := by
  unfold treeAt
  rw [hlocate]
  cases levels <;> rfl

theorem treeAt_some (hsiblings : info.SiblingsTell) {tree : Entry} (h : info.treeAt offset none = .ok tree)
    (levels : Nat) : info.treeAt offset (some levels) = .ok (tree.upTo levels) := by
  obtain ⟨⟨position, a⟩, hlocate, h⟩ := ok_of_bind h
  have hentry := entry_of_locate hlocate
  rw [treeAt_of_locate hlocate]
  cases ha : a.hasChildren with
  | false =>
    simp only [ha, Bool.not_false, if_true] at h
    cases h
    rw [Entry.upTo_leaf]
    rfl
  | true =>
    simp only [ha, Bool.not_true, Bool.false_eq_true, if_false] at h ⊢
    obtain ⟨⟨children, next⟩, hchildren, h⟩ := ok_of_bind h
    cases h
    cases levels with
    | zero =>
      have hend := endOf_of_childrenFrom hentry ha hchildren
      rw [passChildren_of_tells (hsiblings position) hentry ha hend]
      rfl
    | succ levels =>
      simp only [childrenFrom_upTo hsiblings hchildren levels]
      rfl

/-- The end of an entry with children, however it is looked for. -/
structure EndsAt (info : DebugInfo) (position : Nat) (offset : UInt32) (a : Abbreviation) (next : Nat) : Prop where
  read : ∃ children, info.childrenFrom (info.entries.size + 1) offset none (position + 1) = .ok (children, next)
  counted : info.closeAfter offset (info.entries.size + 1) 0 (position + 1) = .ok next
  sibling : ∀ target, info.siblingPosition offset a position = .ok (some target) → target = next
  passed : info.passChildren offset a position = .ok next

theorem endsAt_of_endOf (hsiblings : info.SiblingsTell) (hentry : info.entries[position]? = some ⟨offset, some a⟩)
    (ha : a.hasChildren = true) (h : info.endOf position = some next) : info.EndsAt position offset a next where
  read := by
    rw [endOf_eq hentry ha, Option.map_eq_some_iff] at h
    obtain ⟨null, hnull, rfl⟩ := h
    obtain ⟨count, hcount, hbudget, rfl⟩ := count_of_closeOf hnull
    exact childrenFrom_of_countToClose _ hcount hbudget
  counted := closeAfter_of_endOf hentry ha h
  sibling := by
    intro target htarget
    rcases siblingPosition_of_tells (hsiblings position) hentry h with hsibling | hsibling
    · rw [htarget] at hsibling
      cases hsibling
    · rw [htarget] at hsibling
      cases hsibling
      rfl
  passed := passChildren_of_tells (hsiblings position) hentry ha h

/--
Where sibling attributes tell the truth, a tree of some levels is the whole tree up to them; and however the end of
an entry's children is looked for, it is the place behind the null entry that closes them.
-/
theorem trees_upTo (hsiblings : info.SiblingsTell) :
    (∀ offset tree, info.treeAt offset none = .ok tree →
      ∀ levels, info.treeAt offset (some levels) = .ok (tree.upTo levels)) ∧
    ∀ position offset a next, info.entries[position]? = some ⟨offset, some a⟩ → a.hasChildren = true →
      info.endOf position = some next → info.EndsAt position offset a next :=
  ⟨fun _ _ h levels => treeAt_some hsiblings h levels, fun _ _ _ _ hentry ha h => endsAt_of_endOf hsiblings hentry ha h⟩

/--
One unit. Below the root there is an entry with a sibling attribute, whose child has a child; then one without such
an attribute, whose list is empty; and then a last one.
-/
def layered : Sections where
  info := #[18, 0, 0, 0, 4, 0, 0, 0, 0, 0, 4, 1, 2, 18, 3, 4, 0, 0, 3, 0, 4, 0]
  abbreviations := #[1, 0x11, 1, 0, 0, 2, 0x2e, 1, 1, 0x11, 0, 0, 3, 0x0b, 1, 0, 0, 4, 0x34, 0, 0, 0, 0]

theorem trees_layered : (build layered).toOption.bind (fun info => (info.treeAt 11 none).toOption.bind fun tree =>
    info.entries[1]?.bind fun e => e.abbreviation.map fun a =>
      ((decide info.SiblingsTell, tree.preorder.map Entry.offset, (tree.upTo 1).preorder.map Entry.offset),
        e.offset, a.hasChildren, info.endOf 1)) =
    some ((true, [11, 12, 14, 15, 18, 20], [11, 12, 18, 20]), 12, true, some 6) := by
  decide +kernel

theorem trees_upTo_layered : ∃ info tree a, build layered = .ok info ∧ info.SiblingsTell ∧
    info.treeAt 11 none = .ok tree ∧ tree.preorder.map Entry.offset = [11, 12, 14, 15, 18, 20] ∧
    info.treeAt 11 (some 1) = .ok (tree.upTo 1) ∧ (tree.upTo 1).preorder.map Entry.offset = [11, 12, 18, 20] ∧
    info.entries[1]? = some ⟨12, some a⟩ ∧ a.hasChildren = true ∧ info.endOf 1 = some 6 ∧ info.EndsAt 1 12 a 6 := by
  obtain ⟨info, hbuild, h⟩ := Option.bind_eq_some_iff.mp trees_layered
  obtain ⟨tree, htree, h⟩ := Option.bind_eq_some_iff.mp h
  obtain ⟨⟨offset, abbreviation⟩, hentry, h⟩ := Option.bind_eq_some_iff.mp h
  obtain ⟨a, rfl, hfacts⟩ := Option.map_eq_some_iff.mp h
  simp only [Prod.mk.injEq, decide_eq_true_eq] at hfacts
  obtain ⟨⟨hsiblings, hwhole, hlevel⟩, rfl, ha, hend⟩ := hfacts
  have htree := ok_of_toOption htree
  exact ⟨info, tree, a, ok_of_toOption hbuild, hsiblings, htree, hwhole, (trees_upTo hsiblings).1 11 tree htree 1,
    hlevel, hentry, ha, hend, (trees_upTo hsiblings).2 1 12 a 6 hentry ha hend⟩

end DebugInfo

end FirmwareDebug
