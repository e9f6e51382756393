import FirmwareDebug.Proofs.Index.Built
import FirmwareDebug.Proofs.Tree

/-!
# Trees and the unit they begin in

The children of an entry are read up to the null entry that closes their list, in whatever unit it
stands. A tree stays in its unit where that null entry does, and where no entry that is passed over by
its sibling attribute leads behind the end of its list.
-/

namespace FirmwareDebug

/-! ## Where lists of children end -/

/-- How many entries stand in front of the null entry that closes `opened + 1` lists of children. -/
def countToClose : (opened : Nat) → List IndexedEntry → Option Nat
  | _, [] => none
  | opened, ⟨_, none⟩ :: rest =>
    match opened with
    | 0 => some 0
    | opened + 1 => (countToClose opened rest).map (· + 1)
  | opened, ⟨_, some a⟩ :: rest =>
    (countToClose (if a.hasChildren then opened + 1 else opened) rest).map (· + 1)

section

variable {opened count : Nat} {row : List IndexedEntry}

theorem countToClose_succ (h : countToClose (opened + 1) row = some count) :
    ∃ inner, countToClose opened row = some inner ∧ inner < count := by
  induction row generalizing opened count with
  | nil => cases h
  | cons e rest ih =>
    obtain ⟨offset, abbreviation⟩ := e
    cases abbreviation with
    | none =>
      simp only [countToClose, Option.map_eq_some_iff] at h
      obtain ⟨before, hbefore, rfl⟩ := h
      cases opened with
      | zero => exact ⟨0, rfl, by omega⟩
      | succ opened =>
        obtain ⟨inner, hinner, hlt⟩ := ih hbefore
        exact ⟨inner + 1, by simp [countToClose, hinner], by omega⟩
    | some a =>
      simp only [countToClose, Option.map_eq_some_iff] at h
      obtain ⟨before, hbefore, rfl⟩ := h
      have hopened : (if a.hasChildren then opened + 1 + 1 else opened + 1) =
          (if a.hasChildren then opened + 1 else opened) + 1 := by split <;> rfl
      rw [hopened] at hbefore
      obtain ⟨inner, hinner, hlt⟩ := ih hbefore
      exact ⟨inner + 1, by simp [countToClose, hinner], by omega⟩

theorem countToClose_zero (h : countToClose opened row = some count) :
    ∃ inner, countToClose 0 row = some inner ∧ inner ≤ count := by
  induction opened generalizing count with
  | zero => exact ⟨count, h, Nat.le_refl _⟩
  | succ opened ih =>
    obtain ⟨outer, houter, hlt⟩ := countToClose_succ h
    obtain ⟨inner, hinner, hle⟩ := ih houter
    exact ⟨inner, hinner, by omega⟩

theorem countToClose_drop (h : countToClose opened row = some count) {i : Nat} (hi : i ≤ count) :
    ∃ others, countToClose others (row.drop i) = some (count - i) := by
  induction row generalizing opened count i with
  | nil => cases h
  | cons e rest ih =>
    cases i with
    | zero => exact ⟨opened, h⟩
    | succ i =>
      have hrest : ∃ others, countToClose others rest = some (count - 1) := by
        obtain ⟨offset, abbreviation⟩ := e
        cases abbreviation with
        | none =>
          cases opened with
          | zero =>
            cases h
            cases hi
          | succ opened =>
            simp only [countToClose, Option.map_eq_some_iff] at h
            obtain ⟨before, hbefore, rfl⟩ := h
            exact ⟨opened, hbefore⟩
        | some a =>
          simp only [countToClose, Option.map_eq_some_iff] at h
          obtain ⟨before, hbefore, rfl⟩ := h
          exact ⟨_, hbefore⟩
      obtain ⟨others, hothers⟩ := hrest
      obtain ⟨last, hlast⟩ := ih hothers (by omega : i ≤ count - 1)
      exact ⟨last, by rw [List.drop_succ_cons, hlast, Nat.sub_sub, Nat.add_comm 1]⟩

end

theorem Spells.countToClose_append {row : List IndexedEntry} {trees : List Entry} (h : Spells row trees)
    (opened : Nat) (rest : List IndexedEntry) :
    countToClose opened (row ++ rest) = (countToClose opened rest).map (row.length + ·) := by
  induction h generalizing opened rest with
  | done => simp
  | leaf ha _ ih =>
    simp [countToClose, ha, ih, Function.comp_def, Nat.add_right_comm]
  | node ha _ _ ihinner ihrow =>
    simp [countToClose, ha, ihinner, ihrow, Function.comp_def]
    congr 1
    funext n
    omega

namespace DebugInfo

/-- The place of the null entry that closes the list which goes on at a place. -/
def closeOf (info : DebugInfo) (position : Nat) : Option Nat :=
  (countToClose 0 (info.entries.toList.drop position)).map (position + ·)

variable {info : DebugInfo}

theorem closeOf_eq_some {position null : Nat} : info.closeOf position = some null ↔
    ∃ count, countToClose 0 (info.entries.toList.drop position) = some count ∧ null = position + count := by
  simp only [closeOf, Option.map_eq_some_iff, eq_comm]

theorem closeOf_later {position null later : Nat} (h : info.closeOf position = some null) (hle : position ≤ later)
    (hlater : later ≤ null) : ∃ inner, info.closeOf later = some inner ∧ inner ≤ null := by
  obtain ⟨count, hcount, rfl⟩ := closeOf_eq_some.mp h
  obtain ⟨others, hothers⟩ := countToClose_drop hcount (by omega : later - position ≤ count)
  rw [List.drop_drop, Nat.add_sub_cancel' hle] at hothers
  obtain ⟨inner, hinner, hle⟩ := countToClose_zero hothers
  exact ⟨later + inner, closeOf_eq_some.mpr ⟨inner, hinner, rfl⟩, by omega⟩

theorem lt_of_closeOf {position null : Nat} {offset : UInt32} {a : Abbreviation}
    (hentry : info.entries[position]? = some ⟨offset, some a⟩) (h : info.closeOf position = some null) :
    position < null := by
  obtain ⟨count, hcount, rfl⟩ := closeOf_eq_some.mp h
  rw [drop_of_getElem? hentry, countToClose, Option.map_eq_some_iff] at hcount
  obtain ⟨before, -, rfl⟩ := hcount
  omega

theorem closeOf_children {position null : Nat} {offset : UInt32} {a : Abbreviation}
    (hentry : info.entries[position]? = some ⟨offset, some a⟩) (ha : a.hasChildren = true)
    (h : info.closeOf position = some null) :
    ∃ inner, info.closeOf (position + 1) = some inner ∧ inner < null := by
  obtain ⟨count, hcount, rfl⟩ := closeOf_eq_some.mp h
  rw [drop_of_getElem? hentry, countToClose, ha, if_pos rfl, Option.map_eq_some_iff] at hcount
  obtain ⟨before, hbefore, rfl⟩ := hcount
  obtain ⟨inner, hinner, hlt⟩ := countToClose_succ hbefore
  exact ⟨position + 1 + inner, closeOf_eq_some.mpr ⟨inner, hinner, rfl⟩, by omega⟩

theorem countToClose_of_closeAfter {parent : UInt32} {budget opened position next : Nat}
    (h : info.closeAfter parent budget opened position = .ok next) :
    ∃ count, countToClose opened (info.entries.toList.drop position) = some count ∧ next = position + count + 1 := by
  induction budget generalizing opened position with
  | zero => cases h
  | succ budget ih =>
    unfold closeAfter at h
    split at h
    · cases h
    · rename_i null hentry
      rw [drop_of_getElem? hentry]
      split at h
      · cases h
        exact ⟨0, rfl, rfl⟩
      · rename_i opened
        obtain ⟨count, hcount, rfl⟩ := ih h
        exact ⟨count + 1, by simp only [countToClose, hcount, Option.map_some], by omega⟩
    · rename_i offset a hentry
      obtain ⟨count, hcount, rfl⟩ := ih h
      rw [drop_of_getElem? hentry]
      exact ⟨count + 1, by simp only [countToClose, hcount, Option.map_some], by omega⟩

theorem lt_of_siblingPosition {entry : UInt32} {a : Abbreviation} {position next : Nat}
    (h : info.siblingPosition entry a position = .ok (some next)) : position < next := by
  unfold siblingPosition at h
  split at h
  · cases h
  · obtain ⟨sibling, -, h⟩ := ok_of_bind h
    have hfilter := Except.ok.inj h
    rw [Option.filter_eq_some_iff] at hfilter
    exact of_decide_eq_true hfilter.2

/-- The sibling attribute at a place does not lead behind the end of the list that its entry stands in. -/
def siblingStays (info : DebugInfo) (position : Nat) : Bool :=
  match info.entries[position]? with
  | some ⟨offset, some a⟩ =>
    match info.siblingPosition offset a position, info.closeOf position with
    | .ok (some next), some null => next ≤ null
    | _, _ => true
  | _ => true

/-- No sibling attribute in the unit leads behind the end of a list. -/
def SiblingsStay (info : DebugInfo) (header : UnitHeader) : Prop :=
  ∀ position e, info.entries[position]? = some e → header.contains e.offset = true →
    info.siblingStays position = true

theorem passChildren_le {header : UnitHeader} (hsiblings : info.SiblingsStay header) {position null next : Nat}
    {offset : UInt32} {a : Abbreviation} (hoffset : header.contains offset = true)
    (hentry : info.entries[position]? = some ⟨offset, some a⟩) (ha : a.hasChildren = true)
    (hnull : info.closeOf position = some null) (h : info.passChildren offset a position = .ok next) :
    position < next ∧ next ≤ null := by
  obtain ⟨sibling, hsibling, h⟩ := ok_of_bind h
  cases sibling with
  | some target =>
    cases h
    have hstays := hsiblings position _ hentry hoffset
    simp only [siblingStays, hentry, hsibling, hnull, decide_eq_true_eq] at hstays
    exact ⟨lt_of_siblingPosition hsibling, hstays⟩
  | none =>
    obtain ⟨count, hcount, rfl⟩ := countToClose_of_closeAfter h
    obtain ⟨inner, hinner, hlt⟩ := closeOf_children hentry ha hnull
    obtain ⟨same, hsame, rfl⟩ := closeOf_eq_some.mp hinner
    rw [hcount] at hsame
    cases hsame
    omega

theorem childrenFrom_inside {header : UnitHeader} {first last : Nat}
    (hinside : ∀ place e, first ≤ place → place < last → info.entries[place]? = some e →
      header.contains e.offset = true)
    {levels : Option Nat} (hsiblings : levels = none ∨ info.SiblingsStay header) {budget : Nat} {parent : UInt32}
    {position null next : Nat} {children : List Entry} (hfirst : first ≤ position) (hlast : null ≤ last)
    (hnull : info.closeOf position = some null)
    (h : info.childrenFrom budget parent levels position = .ok (children, next)) :
    position < next ∧ next ≤ null + 1 ∧ ∀ entry ∈ Entry.preorderOf children, header.contains entry.offset = true := by
  induction budget generalizing parent levels position null next children with
  | zero => cases h
  | succ budget ih =>
    rcases childrenFrom_cases h with ⟨_, -, rfl, rfl⟩ |
      ⟨offset, a, inner, after, siblings, hentry, hinner, hrest, rfl⟩
    · obtain ⟨count, -, rfl⟩ := closeOf_eq_some.mp hnull
      exact ⟨by omega, by omega, by simp [Entry.preorderOf]⟩
    · have hlt := lt_of_closeOf hentry hnull
      have hoffset := hinside position _ hfirst (by omega) hentry
      have hchildren : position < after ∧ after ≤ null ∧
          ∀ entry ∈ Entry.preorderOf inner, header.contains entry.offset = true := by
        cases hinner with
        | leaf ha => exact ⟨by omega, by omega, by simp [Entry.preorderOf]⟩
        | passed ha hlevels hpass =>
          obtain hnone | hsiblings := hsiblings
          · rw [hnone] at hlevels
            cases hlevels
          · obtain ⟨hbehind, hle⟩ := passChildren_le hsiblings hoffset hentry ha hnull hpass
            exact ⟨hbehind, hle, by simp [Entry.preorderOf]⟩
        | read ha hread =>
          obtain ⟨close, hclose, hcloselt⟩ := closeOf_children hentry ha hnull
          have hlevels : levels.map (· - 1) = none ∨ info.SiblingsStay header := by
            rwa [Option.map_eq_none_iff]
          obtain ⟨hbehind, hle, hentries⟩ := ih hlevels (by omega) (by omega) hclose hread
          exact ⟨by omega, by omega, hentries⟩
      obtain ⟨hbehind, hle, hentries⟩ := hchildren
      -- Behind the entry and its children the list is still open, so its end bounds the siblings too.
      obtain ⟨later, hlater, hearlier⟩ := closeOf_later hnull (Nat.le_of_lt hbehind) hle
      obtain ⟨hforward, hend, hsiblingEntries⟩ := ih hsiblings (by omega) (by omega) hlater hrest
      refine ⟨by omega, by omega, ?_⟩
      rw [Entry.preorderOf, Entry.preorder_ofAbbreviation, List.cons_append, List.forall_mem_cons,
        List.forall_mem_append]
      exact ⟨hoffset, hentries, hsiblingEntries⟩

theorem position_of_locate {offset : UInt32} {position : Nat} {a : Abbreviation}
    (h : info.locate offset = .ok (position, a)) : info.position? offset = some position := by
  unfold EntryIndex.locate at h
  split at h
  · cases h
  · rename_i i hposition
    split at h
    · cases h
      exact hposition
    · cases h

theorem treeAt_cases {offset : UInt32} {levels : Option Nat} {tree : Entry}
    (h : info.treeAt offset levels = .ok tree) :
    ∃ position a, info.position? offset = some position ∧ info.entries[position]? = some ⟨offset, some a⟩ ∧
      ((tree = .ofAbbreviation offset a [] ∧ (a.hasChildren = false ∨ levels = some 0)) ∨
        ∃ children next, a.hasChildren = true ∧ tree = .ofAbbreviation offset a children ∧
          info.childrenFrom (info.entries.size + 1) offset (levels.map (· - 1)) (position + 1) =
            .ok (children, next)) := by
  obtain ⟨⟨position, a⟩, hlocate, h⟩ := ok_of_bind h
  refine ⟨position, a, position_of_locate hlocate, entry_of_locate hlocate, ?_⟩
  cases ha : a.hasChildren with
  | false =>
    simp only [ha, Bool.not_false, if_true] at h
    cases h
    exact .inl ⟨rfl, .inl rfl⟩
  | true =>
    simp only [ha, Bool.not_true, Bool.false_eq_true, if_false] at h
    split at h
    · obtain ⟨_, -, h⟩ := ok_of_bind h
      cases h
      exact .inl ⟨rfl, .inr rfl⟩
    · obtain ⟨⟨children, next⟩, hchildren, h⟩ := ok_of_bind h
      cases h
      exact .inr ⟨children, next, rfl, rfl, hchildren⟩

/-! ## Units -/

theorem increasing_of_build {sections : Sections} (h : build sections = .ok info)
    (hspace : sections.space.size < 2 ^ 32) : info.entries.toList.Pairwise fun a b => a.offset < b.offset := by
  obtain ⟨htile, parts, hflatten, hparts⟩ := hasEntries_of_build h hspace
  rw [hflatten]
  exact (increasing_of_tile htile hparts).1

/-- The null entry that closes the children of the entry at an offset. -/
def closingNull? (info : DebugInfo) (offset : UInt32) : Option IndexedEntry := do
  let position ← info.position? offset
  let null ← info.closeOf (position + 1)
  info.entries[null]?

/-- The children of the entry at an offset end in the unit. -/
def ClosesIn (info : DebugInfo) (header : UnitHeader) (offset : UInt32) : Prop :=
  ∃ null, info.closingNull? offset = some null ∧ header.contains null.offset = true

/-- A null entry behind an entry of the unit is in the unit too: what follows the unit begins with another entry. -/
def NullsStay (info : DebugInfo) (header : UnitHeader) : Prop :=
  ∀ position e null, info.entries[position]? = some e → info.entries[position + 1]? = some ⟨null, none⟩ →
    header.contains e.offset = true → header.contains null = true

/-- All entries of the tree are in the unit. -/
def TreeIn (header : UnitHeader) (tree : Entry) : Prop := ∀ entry ∈ tree.preorder, header.contains entry.offset = true

section

variable {header : UnitHeader} (hsorted : info.entries.toList.Pairwise fun a b => a.offset < b.offset)
include hsorted

theorem offset_lt {first last : Nat} {a b : IndexedEntry} (ha : info.entries[first]? = some a)
    (hb : info.entries[last]? = some b) (hlt : first < last) : a.offset < b.offset := by
  rw [← Array.getElem?_toList] at ha hb
  obtain ⟨hfirst, rfl⟩ := List.getElem?_eq_some_iff.mp ha
  obtain ⟨hlast, rfl⟩ := List.getElem?_eq_some_iff.mp hb
  exact List.pairwise_iff_getElem.mp hsorted first last hfirst hlast hlt

theorem offset_le {first last : Nat} {a b : IndexedEntry} (ha : info.entries[first]? = some a)
    (hb : info.entries[last]? = some b) (hle : first ≤ last) : a.offset ≤ b.offset := by
  rcases Nat.eq_or_lt_of_le hle with rfl | hlt
  · rw [ha] at hb
    cases hb
    exact UInt32.le_refl _
  · exact UInt32.le_of_lt (offset_lt hsorted ha hb hlt)

theorem contains_between {first last place : Nat} {a b e : IndexedEntry} (ha : info.entries[first]? = some a)
    (hb : info.entries[last]? = some b) (hina : header.contains a.offset = true)
    (hinb : header.contains b.offset = true) (hfirst : first ≤ place) (hlast : place ≤ last)
    (he : info.entries[place]? = some e) : header.contains e.offset = true := by
  have hlow := offset_le hsorted ha he hfirst
  have hhigh := offset_le hsorted he hb hlast
  simp only [UnitHeader.contains, Bool.and_eq_true, decide_eq_true_eq] at hina hinb ⊢
  exact ⟨UInt32.le_trans hina.1 hlow, UInt32.lt_of_le_of_lt hhigh hinb.2⟩

theorem treeIn_of_closesIn {offset : UInt32} (hoffset : header.contains offset = true) {levels : Option Nat}
    {tree : Entry} (htree : info.treeAt offset levels = .ok tree)
    (hcloses : tree.hasChildren = true → info.ClosesIn header offset)
    (hsiblings : levels = none ∨ info.SiblingsStay header) : TreeIn header tree := by
  obtain ⟨position, a, hposition, hentry, ⟨rfl, -⟩ | ⟨children, next, ha, rfl, hread⟩⟩ := treeAt_cases htree
  · rw [TreeIn, Entry.preorder_ofAbbreviation, List.forall_mem_cons]
    exact ⟨hoffset, by simp [Entry.preorderOf]⟩
  · obtain ⟨e, hclosing, hin⟩ := hcloses ha
    simp only [closingNull?, hposition, Option.bind_eq_bind, Option.bind_some] at hclosing
    obtain ⟨null, hnull, he⟩ := Option.bind_eq_some_iff.mp hclosing
    have hinside (place : Nat) (between : IndexedEntry) (hfirst : position + 1 ≤ place) (hlast : place < null)
        (hbetween : info.entries[place]? = some between) : header.contains between.offset = true :=
      contains_between hsorted hentry he hoffset hin (by omega) (by omega) hbetween
    have hlevels : levels.map (· - 1) = none ∨ info.SiblingsStay header := by rwa [Option.map_eq_none_iff]
    have hentries := (childrenFrom_inside hinside hlevels (Nat.le_refl _) (Nat.le_refl _) hnull hread).2.2
    rw [TreeIn, Entry.preorder_ofAbbreviation, List.forall_mem_cons]
    exact ⟨hoffset, hentries⟩

omit hsorted in
theorem closesIn_of_treeIn {offset : UInt32} (hoffset : header.contains offset = true) {tree : Entry}
    (htree : info.treeAt offset none = .ok tree) (hnulls : info.NullsStay header) (hin : TreeIn header tree)
    (hchildren : tree.hasChildren = true) : info.ClosesIn header offset := by
  obtain ⟨position, a, hposition, hentry, ⟨rfl, hleaf⟩ | ⟨children, next, ha, rfl, hread⟩⟩ := treeAt_cases htree
  · rcases hleaf with hleaf | hleaf
    · exact absurd hchildren (by simp [Entry.ofAbbreviation, hleaf])
    · cases hleaf
  · obtain ⟨row, null, hrow, hspells⟩ := spells_of_childrenFrom hread
    have hclose : info.closeOf (position + 1) = some (position + 1 + row.length) := by
      rw [closeOf, hrow, hspells.countToClose_append]
      rfl
    have hplaces (i : Nat) :
        info.entries[position + 1 + i]? = (row ++ ⟨null, none⟩ :: info.entries.toList.drop next)[i]? := by
      rw [← hrow, List.getElem?_drop, Array.getElem?_toList]
    have hnull : info.entries[position + 1 + row.length]? = some ⟨null, none⟩ := by
      rw [hplaces, List.getElem?_append_right (Nat.le_refl _), Nat.sub_self]
      rfl
    -- Going on by one place never leaves the unit: an entry of the row is in the tree, and a null entry
    -- does not begin what follows the unit.
    have hstays (i : Nat) (hi : i ≤ row.length + 1) (e : IndexedEntry) (he : info.entries[position + i]? = some e) :
        header.contains e.offset = true := by
      induction i generalizing e with
      | zero =>
        rw [Nat.add_zero, hentry] at he
        cases he
        exact hoffset
      | succ i ih =>
        obtain ⟨offset', abbreviation⟩ := e
        cases abbreviation with
        | none =>
          obtain ⟨hlt, -⟩ := Array.getElem?_eq_some_iff.mp he
          have hbefore : info.entries[position + i]? = some _ := Array.getElem?_eq_getElem (by omega)
          exact hnulls (position + i) _ offset' hbefore he (ih (by omega) _ hbefore)
        | some a' =>
          rw [← Nat.add_assoc, Nat.add_right_comm, hplaces] at he
          have hrowlt : i < row.length := by
            by_contra hge
            rw [show i = row.length by omega, List.getElem?_append_right (Nat.le_refl _), Nat.sub_self] at he
            cases he
          rw [List.getElem?_append_left hrowlt] at he
          have hmem : Entry.ofAbbreviation offset' a' [] ∈ (Entry.preorderOf children).map Entry.bare := by
            rw [hspells.preorder_eq, List.mem_filterMap]
            exact ⟨_, List.mem_of_getElem? he, rfl⟩
          obtain ⟨entry, hentry', hbare⟩ := List.mem_map.mp hmem
          have hcontains := hin entry (List.mem_cons_of_mem _ hentry')
          rwa [show entry.offset = offset' from congrArg Entry.offset hbare] at hcontains
    have hlast : header.contains null = true := by
      refine hstays (row.length + 1) (Nat.le_refl _) ⟨null, none⟩ ?_
      rw [← Nat.add_assoc, Nat.add_right_comm]
      exact hnull
    refine ⟨⟨null, none⟩, ?_, hlast⟩
    simp only [closingNull?, hposition, hclose, Option.bind_eq_bind, Option.bind_some, hnull]

end

/--
A tree stays in the unit it begins in where the children of its root end there, if no sibling attribute
leads out of a list. With all its levels, it leaves the unit wherever they do not end there.
-/
theorem treeIn_iff {sections : Sections} (hbuild : build sections = .ok info) (hsize : sections.size < 2 ^ 32)
    {header : UnitHeader} {offset : UInt32} (hoffset : header.contains offset = true) :
    (∀ levels tree, info.treeAt offset levels = .ok tree →
      (tree.hasChildren = true → info.ClosesIn header offset) → (levels = none ∨ info.SiblingsStay header) →
        TreeIn header tree) ∧
      ∀ tree, info.treeAt offset none = .ok tree → info.NullsStay header →
        (TreeIn header tree ↔ (tree.hasChildren = true → info.ClosesIn header offset)) := by
  have hsorted := increasing_of_build hbuild (Sections.space_lt hsize)
  constructor
  · intro levels tree htree hcloses hsiblings
    exact treeIn_of_closesIn hsorted hoffset htree hcloses hsiblings
  · intro tree htree hnulls
    constructor
    · intro hin hchildren
      exact closesIn_of_treeIn hoffset htree hnulls hin hchildren
    · intro hcloses
      exact treeIn_of_closesIn hsorted hoffset htree hcloses (.inl rfl)

/-- Two units. Below the first root one entry with a sibling attribute is passed over and one follows it. -/
def separate : Sections where
  info := #[14, 0, 0, 0, 4, 0, 0, 0, 0, 0, 4, 1, 2, 16, 3, 0, 3, 0,
    9, 0, 0, 0, 4, 0, 0, 0, 0, 0, 4, 1, 0]
  abbreviations := #[1, 0x11, 1, 0, 0, 2, 0x2e, 1, 1, 0x11, 0, 0, 3, 0x34, 0, 0, 0, 0]

theorem trees_separate : (build separate).toOption.bind (fun info =>
    info.units[0]?.bind fun unit => (info.treeAt 11 (some 1)).toOption.map fun tree =>
      (unit.header.contains 11, (info.closingNull? 11).map fun null => unit.header.contains null.offset,
        (List.range info.entries.size).all info.siblingStays, tree.preorder.map Entry.offset)) =
      some (true, some true, true, [11, 12, 16]) := by
  decide +kernel

theorem treeIn_separate : ∃ info unit, build separate = .ok info ∧ separate.size < 2 ^ 32 ∧
    info.units[0]? = some unit ∧ unit.header.contains 11 = true ∧ ∃ tree, info.treeAt 11 (some 1) = .ok tree ∧
      tree.preorder.map Entry.offset = [11, 12, 16] ∧ info.ClosesIn unit.header 11 ∧
      info.SiblingsStay unit.header ∧ TreeIn unit.header tree := by
  have hsize : separate.size < 2 ^ 32 := by decide
  obtain ⟨info, hbuild, hunits⟩ := Option.bind_eq_some_iff.mp trees_separate
  obtain ⟨unit, hunit, htrees⟩ := Option.bind_eq_some_iff.mp hunits
  obtain ⟨tree, htree, hfacts⟩ := Option.map_eq_some_iff.mp htrees
  simp only [Prod.mk.injEq, Option.map_eq_some_iff, List.all_eq_true, List.mem_range] at hfacts
  obtain ⟨hoffset, hcloses, hsiblings, hpreorder⟩ := hfacts
  have hbuild : build separate = .ok info := ok_of_toOption hbuild
  have htree : info.treeAt 11 (some 1) = .ok tree := ok_of_toOption htree
  have hstay : info.SiblingsStay unit.header := by
    intro position e he _
    obtain ⟨hlt, -⟩ := Array.getElem?_eq_some_iff.mp he
    exact hsiblings position hlt
  have hin := (treeIn_iff hbuild hsize hoffset).1 (some 1) tree htree (fun _ => hcloses) (.inr hstay)
  exact ⟨info, unit, hbuild, hsize, hunit, hoffset, tree, htree, hpreorder, hcloses, hstay, hin⟩

/-- The list of the first root has no end of its own; the second unit has a null entry too many. -/
def unterminated : Sections where
  info := #[8, 0, 0, 0, 4, 0, 0, 0, 0, 0, 4, 1, 10, 0, 0, 0, 4, 0, 0, 0, 0, 0, 4, 1, 0, 0]
  abbreviations := #[1, 0x11, 1, 0, 0, 0]

theorem trees_unterminated : (build unterminated).toOption.bind (fun info =>
    info.units[0]?.bind fun unit => (info.treeAt 11 none).toOption.map fun tree =>
      (unit.header.contains 11, tree.preorder.map Entry.offset, unit.header.contains 23)) =
      some (true, [11, 23], false) := by
  decide +kernel

theorem not_treeIn_unterminated : ∃ info unit tree, build unterminated = .ok info ∧ unterminated.size < 2 ^ 32 ∧
    info.units[0]? = some unit ∧ unit.header.contains 11 = true ∧ info.treeAt 11 none = .ok tree ∧
      ¬ TreeIn unit.header tree := by
  have hsize : unterminated.size < 2 ^ 32 := by decide
  obtain ⟨info, hbuild, hunits⟩ := Option.bind_eq_some_iff.mp trees_unterminated
  obtain ⟨unit, hunit, htrees⟩ := Option.bind_eq_some_iff.mp hunits
  obtain ⟨tree, htree, hfacts⟩ := Option.map_eq_some_iff.mp htrees
  simp only [Prod.mk.injEq] at hfacts
  obtain ⟨hoffset, hpreorder, houtside⟩ := hfacts
  refine ⟨info, unit, tree, ok_of_toOption hbuild, hsize, hunit, hoffset, ok_of_toOption htree, ?_⟩
  intro hin
  have hmem : (23 : UInt32) ∈ tree.preorder.map Entry.offset := by simp [hpreorder]
  obtain ⟨entry, hentry, hplace⟩ := List.mem_map.mp hmem
  have hcontains := hin entry hentry
  rw [hplace, houtside] at hcontains
  cases hcontains

end DebugInfo

end FirmwareDebug
