import FirmwareDebug.Entry
import FirmwareDebug.Proofs.Keeps
import FirmwareDebug.Proofs.Search

/-!
# Trees and the rows they are read from

The tree of an entry is read off one row of the index: the entry, what is inside it, and the null
entry that ends its children. `Spells` says how a row writes trees. What the order of a row tells by
itself follows from it: which entries the trees have, and which of them is the parent of which.
-/

namespace FirmwareDebug

/-! ## Trees -/

namespace Entry

mutual

/--
For each entry of a tree, in preorder, the number that its parent has in that order. The root has the
number `number`.
-/
def parents (number : Nat) (parent : Option Nat) : Entry → List (Option Nat)
  | ⟨_, _, _, _, children⟩ => parent :: parentsOf (number + 1) number children

/-- The numbers of the parents in the trees of an entry's children. -/
def parentsOf (number parent : Nat) : List Entry → List (Option Nat)
  | [] => []
  | child :: rest => parents number (some parent) child ++ parentsOf (number + child.count) parent rest

end

variable {offset : UInt32} {a : Abbreviation} {children siblings : List Entry}

@[simp]
theorem preorder_ofAbbreviation : (Entry.ofAbbreviation offset a children).preorder =
    .ofAbbreviation offset a children :: preorderOf children := rfl

@[simp]
theorem parents_ofAbbreviation (number : Nat) (parent : Option Nat) :
    (Entry.ofAbbreviation offset a children).parents number parent =
      parent :: parentsOf (number + 1) number children := rfl

theorem add_count (number : Nat) : number + (Entry.ofAbbreviation offset a children).count =
    number + 1 + (preorderOf children).length := by
  rw [Nat.add_assoc, Nat.add_comm 1]
  rfl

theorem add_length_preorderOf (number : Nat) :
    number + (preorderOf (.ofAbbreviation offset a children :: siblings)).length =
      number + 1 + (preorderOf children).length + (preorderOf siblings).length := by
  rw [preorderOf, List.length_append, ← Nat.add_assoc]
  exact congrArg (· + _) (add_count number)

end Entry

/-! ## Rows of the index -/

/-- The entry by itself; a null entry stands for none. -/
def IndexedEntry.entry? (e : IndexedEntry) : Option Entry :=
  e.abbreviation.map fun a => .ofAbbreviation e.offset a []

/-- The numbers of the entries that are open behind a row, the innermost first. -/
def openBehind (number : Nat) (opened : List Nat) : List IndexedEntry → List Nat
  | [] => opened
  | ⟨_, none⟩ :: rest => openBehind number opened.tail rest
  | ⟨_, some a⟩ :: rest => openBehind (number + 1) (if a.hasChildren then number :: opened else opened) rest

/-- For each entry of a row, the number of the innermost entry that is open in front of it. -/
def enclosing (number : Nat) (opened : List Nat) : List IndexedEntry → List (Option Nat)
  | [] => []
  | ⟨_, none⟩ :: rest => enclosing number opened.tail rest
  | ⟨_, some a⟩ :: rest =>
    opened.head? :: enclosing (number + 1) (if a.hasChildren then number :: opened else opened) rest

/-- The row writes the trees: an entry with children is followed by them and by a null entry. -/
inductive Spells : List IndexedEntry → List Entry → Prop
  | done : Spells [] []
  | leaf {offset : UInt32} {a : Abbreviation} {row : List IndexedEntry} {siblings : List Entry}
      (ha : a.hasChildren = false) (hrow : Spells row siblings) :
      Spells (⟨offset, some a⟩ :: row) (.ofAbbreviation offset a [] :: siblings)
  | node {offset null : UInt32} {a : Abbreviation} {inner row : List IndexedEntry}
      {children siblings : List Entry} (ha : a.hasChildren = true) (hinner : Spells inner children)
      (hrow : Spells row siblings) :
      Spells (⟨offset, some a⟩ :: (inner ++ ⟨null, none⟩ :: row))
        (.ofAbbreviation offset a children :: siblings)

namespace Spells

variable {row : List IndexedEntry} {trees : List Entry}

theorem preorder_eq (h : Spells row trees) :
    (Entry.preorderOf trees).map Entry.bare = row.filterMap IndexedEntry.entry? := by
  induction h with
  | done => rfl
  | @leaf offset a row siblings _ _ ih =>
    rw [Entry.preorderOf, Entry.preorder_ofAbbreviation, List.map_append, ih]
    rfl
  | @node offset null a inner row children siblings _ _ _ ihinner ihrow =>
    rw [Entry.preorderOf, Entry.preorder_ofAbbreviation, List.map_append, List.map_cons, ihinner, ihrow]
    simp only [List.filterMap_cons, List.filterMap_append]
    rfl

theorem openBehind_append (h : Spells row trees) (number : Nat) (opened : List Nat)
    (rest : List IndexedEntry) : openBehind number opened (row ++ rest) =
      openBehind (number + (Entry.preorderOf trees).length) opened rest := by
  induction h generalizing number opened rest with
  | done => rfl
  | leaf ha _ ih =>
    rw [List.cons_append, openBehind, ha, if_neg nofun, ih, Entry.add_length_preorderOf]
    rfl
  | node ha _ _ ihinner ihrow =>
    rw [List.cons_append, openBehind, ha, if_pos rfl, List.append_assoc, ihinner, List.cons_append,
      openBehind, List.tail_cons, ihrow, Entry.add_length_preorderOf]

theorem openBehind_prefix (h : Spells row trees) (number : Nat) (opened : List Nat)
    {front back : List IndexedEntry} (hrow : row = front ++ back) :
    ∃ inside, openBehind number opened front = inside ++ opened := by
  induction h generalizing number opened front back with
  | done =>
    rw [(List.append_eq_nil_iff.mp hrow.symm).1]
    exact ⟨[], rfl⟩
  | leaf ha _ ih =>
    cases front with
    | nil => exact ⟨[], rfl⟩
    | cons e front =>
      rw [List.cons_append, List.cons.injEq] at hrow
      obtain ⟨rfl, hrow⟩ := hrow
      rw [openBehind, ha, if_neg nofun]
      exact ih (number + 1) opened hrow
  | @node offset null a inner row children siblings ha hinner _ ihinner ihrow =>
    cases front with
    | nil => exact ⟨[], rfl⟩
    | cons e front =>
      rw [List.cons_append, List.cons.injEq] at hrow
      obtain ⟨rfl, hrow⟩ := hrow
      rw [openBehind, ha, if_pos rfl]
      rcases List.append_eq_append_iff.mp hrow with ⟨middle, rfl, hback⟩ | ⟨middle, hfront, -⟩
      · rw [hinner.openBehind_append]
        cases middle with
        | nil => exact ⟨[number], rfl⟩
        | cons e middle =>
          rw [List.cons_append, List.cons.injEq] at hback
          obtain ⟨rfl, hback⟩ := hback
          exact ihrow _ opened hback
      · obtain ⟨inside, hinside⟩ := ihinner (number + 1) (number :: opened) hfront
        exact ⟨inside ++ [number], by rw [hinside, List.append_assoc]; rfl⟩

theorem enclosing_append (h : Spells row trees) (number parent : Nat) (opened : List Nat)
    (rest : List IndexedEntry) : enclosing number (parent :: opened) (row ++ rest) =
      Entry.parentsOf number parent trees ++
        enclosing (number + (Entry.preorderOf trees).length) (parent :: opened) rest := by
  induction h generalizing number parent opened rest with
  | done => rfl
  | leaf ha _ ih =>
    rw [List.cons_append, enclosing, ha, if_neg nofun, ih, Entry.parentsOf, Entry.add_count,
      Entry.add_length_preorderOf, Entry.parents_ofAbbreviation]
    rfl
  | node ha _ _ ihinner ihrow =>
    rw [List.cons_append, enclosing, ha, if_pos rfl, List.append_assoc, ihinner, List.cons_append,
      enclosing, List.tail_cons, ihrow, Entry.parentsOf, Entry.add_count, Entry.add_length_preorderOf,
      Entry.parents_ofAbbreviation, List.append_assoc]
    rfl

end Spells

/-! ## What a tree is read from -/

/-- The row is all that the tree is read from, and tells it. -/
structure Entry.ReadFrom (row : List IndexedEntry) (tree : Entry) : Prop where
  root : row.head?.bind IndexedEntry.entry? = some tree.bare
  /-- Every entry of the row comes up once, in the order of the row. -/
  preorder_eq : tree.preorder.map Entry.bare = row.filterMap IndexedEntry.entry?
  /-- Every entry is a child of the innermost one that is open where it stands. -/
  parents_eq : tree.parents 0 none = enclosing 0 [] row
  /-- The row ends where the root is closed, -/
  closed : openBehind 0 [] row = []
  /-- and not before. -/
  opened : ∀ front back, row = front ++ back → front ≠ [] → back ≠ [] → openBehind 0 [] front ≠ []
  /-- What closes it is a null entry, or the root itself if it has no children. -/
  last : if tree.hasChildren then ∃ null, row.getLast? = some ⟨null, none⟩ else row.length = 1

theorem Entry.readFrom_leaf {offset : UInt32} {a : Abbreviation} (ha : a.hasChildren = false) :
    (Entry.ofAbbreviation offset a []).ReadFrom [⟨offset, some a⟩] where
  root := rfl
  preorder_eq := rfl
  parents_eq := rfl
  closed := by rw [openBehind, ha]; rfl
  opened := by
    intro front back hrow hfront hback
    have hlength := congrArg List.length hrow
    have hfront := List.length_pos_iff.mpr hfront
    have hback := List.length_pos_iff.mpr hback
    rw [List.length_append, List.length_singleton] at hlength
    omega
  last := by
    show if a.hasChildren = true then _ else _
    rw [ha]
    rfl

theorem Entry.readFrom_node {offset null : UInt32} {a : Abbreviation} {inner : List IndexedEntry}
    {children : List Entry} (ha : a.hasChildren = true) (hinner : Spells inner children) :
    (Entry.ofAbbreviation offset a children).ReadFrom (⟨offset, some a⟩ :: (inner ++ [⟨null, none⟩])) where
  root := rfl
  preorder_eq := by
    rw [preorder_ofAbbreviation, List.map_cons, hinner.preorder_eq, List.filterMap_cons, List.filterMap_append]
    exact congrArg _ (List.append_nil _).symm
  parents_eq := by
    rw [enclosing, ha, if_pos rfl, hinner.enclosing_append]
    exact congrArg _ (List.append_nil _).symm
  closed := by
    rw [openBehind, ha, if_pos rfl, hinner.openBehind_append]
    rfl
  opened := by
    intro front back hrow hfront hback
    cases front with
    | nil => exact absurd rfl hfront
    | cons e front =>
      rw [List.cons_append, List.cons.injEq] at hrow
      obtain ⟨rfl, hrow⟩ := hrow
      -- The null entry that closes the root lies behind the part that is looked at.
      have hprefix : ∃ middle, inner = front ++ middle := by
        rcases List.append_eq_append_iff.mp hrow with ⟨middle, rfl, hend⟩ | ⟨middle, hinner, -⟩
        · rcases List.append_eq_singleton_iff.mp hend.symm with ⟨rfl, -⟩ | ⟨-, rfl⟩
          · exact ⟨[], by simp⟩
          · exact absurd rfl hback
        · exact ⟨middle, hinner⟩
      obtain ⟨middle, hmiddle⟩ := hprefix
      obtain ⟨inside, hinside⟩ := hinner.openBehind_prefix 1 [0] hmiddle
      rw [openBehind, ha, if_pos rfl, hinside]
      exact List.append_ne_nil_of_right_ne_nil _ nofun
  last := by
    show if a.hasChildren = true then _ else _
    rw [ha, if_pos rfl]
    exact ⟨null, by rw [List.getLast?_cons, List.getLast?_append]; rfl⟩

namespace DebugInfo

variable {info : DebugInfo}

theorem drop_of_getElem? {position : Nat} {e : IndexedEntry} (h : info.entries[position]? = some e) :
    info.entries.toList.drop position = e :: info.entries.toList.drop (position + 1) := by
  rw [← Array.getElem?_toList] at h
  obtain ⟨hlt, rfl⟩ := List.getElem?_eq_some_iff.mp h
  exact List.drop_eq_getElem_cons hlt

/-- How an entry's own children are read, and where reading goes on behind them. -/
inductive ReadsChildren (info : DebugInfo) (budget : Nat) (levels : Option Nat) (position : Nat) (offset : UInt32)
    (a : Abbreviation) : List Entry → Nat → Prop
  | leaf (ha : a.hasChildren = false) : ReadsChildren info budget levels position offset a [] (position + 1)
  | passed {next : Nat} (ha : a.hasChildren = true) (hlevels : levels = some 0)
      (hpass : info.passChildren offset a position = .ok next) :
      ReadsChildren info budget levels position offset a [] next
  | read {children : List Entry} {next : Nat} (ha : a.hasChildren = true)
      (hread : info.childrenFrom budget offset (levels.map (· - 1)) (position + 1) = .ok (children, next)) :
      ReadsChildren info budget levels position offset a children next

/-- Reading from a place stops at a null entry, or goes on behind the entry there and its children. -/
theorem childrenFrom_cases {budget : Nat} {parent : UInt32} {levels : Option Nat} {position next : Nat}
    {children : List Entry} (h : info.childrenFrom (budget + 1) parent levels position = .ok (children, next)) :
    (∃ null, info.entries[position]? = some ⟨null, none⟩ ∧ children = [] ∧ next = position + 1) ∨
      ∃ offset a inner after siblings, info.entries[position]? = some ⟨offset, some a⟩ ∧
        info.ReadsChildren budget levels position offset a inner after ∧
        info.childrenFrom budget parent levels after = .ok (siblings, next) ∧
        children = .ofAbbreviation offset a inner :: siblings := by
  unfold childrenFrom at h
  split at h
  · cases h
  · rename_i null hentry
    cases h
    exact .inl ⟨null, hentry, rfl, rfl⟩
  · rename_i offset a hentry
    right
    cases ha : a.hasChildren with
    | false =>
      simp only [ha, Bool.not_false, if_true] at h
      simp only [bind_eq_ok_iff, pure_eq_ok_iff, Prod.exists] at h
      obtain ⟨_, _, hinner, siblings, _, hsiblings, hlist⟩ := h
      cases hinner
      cases hlist
      exact ⟨offset, a, _, _, _, hentry, .leaf ha, hsiblings, rfl⟩
    | true =>
      simp only [ha, Bool.not_true, Bool.false_eq_true, if_false] at h
      split at h
      · simp only [bind_eq_ok_iff, pure_eq_ok_iff, Prod.exists] at h
        obtain ⟨after, hpass, _, _, hinner, siblings, _, hsiblings, hlist⟩ := h
        cases hinner
        cases hlist
        exact ⟨offset, a, _, _, _, hentry, .passed ha rfl hpass, hsiblings, rfl⟩
      · simp only [bind_eq_ok_iff, pure_eq_ok_iff, Prod.exists] at h
        obtain ⟨inner, after, hinner, siblings, _, hsiblings, hlist⟩ := h
        cases hlist
        exact ⟨offset, a, _, _, _, hentry, .read ha hinner, hsiblings, rfl⟩

theorem spells_of_childrenFrom {budget : Nat} {parent : UInt32} {position next : Nat} {children : List Entry}
    (h : info.childrenFrom budget parent none position = .ok (children, next)) :
    ∃ row null, info.entries.toList.drop position = row ++ ⟨null, none⟩ :: info.entries.toList.drop next ∧
      Spells row children := by
  induction budget generalizing parent position next children with
  | zero => cases h
  | succ budget ih =>
    rcases childrenFrom_cases h with ⟨null, hentry, rfl, rfl⟩ |
      ⟨offset, a, inner, after, siblings, hentry, hinner, hsiblings, rfl⟩
    · exact ⟨[], null, drop_of_getElem? hentry, .done⟩
    · have hdrop := drop_of_getElem? hentry
      obtain ⟨row, null, hrow, hspells⟩ := ih hsiblings
      cases hinner with
      | leaf ha =>
        refine ⟨⟨offset, some a⟩ :: row, null, ?_, .leaf ha hspells⟩
        rw [hdrop, hrow]
        rfl
      | passed ha hlevels hpass => cases hlevels
      | read ha hread =>
        obtain ⟨inside, close, hinside, hchildren⟩ := ih hread
        refine ⟨⟨offset, some a⟩ :: (inside ++ ⟨close, none⟩ :: row), null, ?_, .node ha hchildren hspells⟩
        rw [hdrop, hinside, hrow]
        simp

theorem entry_of_locate {offset : UInt32} {position : Nat} {a : Abbreviation}
    (h : info.locate offset = .ok (position, a)) : info.entries[position]? = some ⟨offset, some a⟩ := by
  unfold EntryIndex.locate at h
  split at h
  · cases h
  · rename_i i hposition
    obtain ⟨⟨_, found⟩, hentry, rfl⟩ := key_of_searchKey hposition
    split at h
    · rename_i b hfound
      cases h
      rw [hentry, Option.bind_some] at hfound
      cases hfound
      exact hentry
    · cases h

/-- A tree with all its levels is told by one row of the index, which begins with the entry. -/
theorem treeAt_readFrom {offset : UInt32} {tree : Entry} (h : info.treeAt offset none = .ok tree) :
    ∃ before row behind a, info.entries.toList = before ++ row ++ behind ∧
      info.locate offset = .ok (before.length, a) ∧ tree.offset = offset ∧ tree.ReadFrom row := by
  obtain ⟨⟨position, a⟩, hlocate, h⟩ := ok_of_bind h
  have hentry := entry_of_locate hlocate
  have hposition : (info.entries.toList.take position).length = position := by
    rw [List.length_take_of_le]
    obtain ⟨hlt, -⟩ := Array.getElem?_eq_some_iff.mp hentry
    rw [Array.length_toList]
    omega
  have hsplit := List.take_append_drop position info.entries.toList
  rw [drop_of_getElem? hentry] at hsplit
  refine ⟨info.entries.toList.take position, ?_⟩
  rw [hposition]
  cases ha : a.hasChildren with
  | false =>
    simp only [ha, Bool.not_false, if_true] at h
    cases h
    refine ⟨[⟨offset, some a⟩], info.entries.toList.drop (position + 1), a, ?_, hlocate, rfl, Entry.readFrom_leaf ha⟩
    rw [List.append_assoc, List.singleton_append, hsplit]
  | true =>
    simp only [ha, Bool.not_true, Bool.false_eq_true, if_false] at h
    obtain ⟨⟨children, next⟩, hchildren, h⟩ := ok_of_bind h
    cases h
    obtain ⟨inner, null, hinner, hspells⟩ := spells_of_childrenFrom hchildren
    refine ⟨⟨offset, some a⟩ :: (inner ++ [⟨null, none⟩]), info.entries.toList.drop next, a, ?_,
      hlocate, rfl, Entry.readFrom_node ha hspells⟩
    refine hsplit.symm.trans ?_
    rw [hinner]
    simp

/-- One unit: below the root an entry whose list of children is empty, one with a child, and one without. -/
def nested : Sections where
  info := #[15, 0, 0, 0, 4, 0, 0, 0, 0, 0, 4, 1, 2, 0, 2, 3, 0, 3, 0]
  abbreviations := #[1, 0x11, 1, 0, 0, 2, 0x2e, 1, 0, 0, 3, 0x34, 0, 0, 0, 0]

theorem tree_nested : (build nested).toOption.bind (fun info => (info.treeAt 11 none).toOption.map fun tree =>
    (tree.preorder.map Entry.offset, tree.parents 0 none)) =
      some ([11, 12, 14, 15, 17], [none, some 0, some 0, some 2, some 0]) := by
  decide +kernel

theorem readFrom_nested : ∃ info tree, build nested = .ok info ∧ info.treeAt 11 none = .ok tree ∧
    ∃ before row behind a, info.entries.toList = before ++ row ++ behind ∧
      info.locate 11 = .ok (before.length, a) ∧ tree.offset = 11 ∧ tree.ReadFrom row := by
  have htree := tree_nested
  cases hbuild : build nested with
  | error e =>
    rw [hbuild] at htree
    cases htree
  | ok info =>
    rw [hbuild] at htree
    cases hread : info.treeAt 11 none with
    | error e =>
      simp only [Except.toOption, Option.bind_some, hread] at htree
      cases htree
    | ok tree => exact ⟨info, tree, rfl, hread, treeAt_readFrom hread⟩

end DebugInfo

end FirmwareDebug
