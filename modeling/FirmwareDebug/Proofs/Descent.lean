import FirmwareDebug.Proofs.Scope
import FirmwareDebug.Proofs.TreeLevels
import FirmwareDebug.Proofs.UnitMemory

/-!
# The descent to a context

The children of an entry stand behind it, wherever sibling attributes lead. So the search for the scopes of an address
always goes forward in the index and comes to an end. What it finds is a row of scopes that cover the address, and each
of them is the first such child of the one before it.
-/

namespace FirmwareDebug

namespace DebugInfo

variable {info : DebugInfo} {unit : UnitSummary} {pc parent offset : UInt32} {budget position next : Nat}
  {a : Abbreviation} {children : List Entry}

/-! ## Listing children -/

/-- The place behind an entry whose children are passed over. -/
def behind (info : DebugInfo) (offset : UInt32) (a : Abbreviation) (position : Nat) : Except Fault Nat := do
  if !a.hasChildren then return position + 1
  match ← info.siblingPosition offset a position with
  | some next => return next
  | none =>
    match info.closeOf (position + 1) with
    | some null => return null + 1
    | none => throw (openChildren offset)

/-- Listing the entries from a place on ends with a result, after however many of them. -/
inductive Lists (info : DebugInfo) (parent : UInt32) : (position : Nat) → Except Fault (List Entry) → Prop
  | unclosed {position : Nat} (hnone : info.entries[position]? = none) :
      Lists info parent position (.error (openChildren parent))
  | closed {position : Nat} {null : UInt32} (hnull : info.entries[position]? = some ⟨null, none⟩) :
      Lists info parent position (.ok [])
  | refused {position : Nat} {offset : UInt32} {a : Abbreviation} {e : Fault}
      (hentry : info.entries[position]? = some ⟨offset, some a⟩) (hbehind : info.behind offset a position = .error e) :
      Lists info parent position (.error e)
  | entry {position next : Nat} {offset : UInt32} {a : Abbreviation} {result : Except Fault (List Entry)}
      (hentry : info.entries[position]? = some ⟨offset, some a⟩) (hbehind : info.behind offset a position = .ok next)
      (hrest : Lists info parent next result) :
      Lists info parent position (result.map (.ofAbbreviation offset a [] :: ·))

/-- Listing the children of an entry ends with a result. -/
inductive ListsChildren (info : DebugInfo) (offset : UInt32) : Except Fault (List Entry) → Prop
  | unknown {e : Fault} (hlocate : info.toEntryIndex.locate offset = .error e) : ListsChildren info offset (.error e)
  | leaf {position : Nat} {a : Abbreviation} (hlocate : info.toEntryIndex.locate offset = .ok (position, a))
      (ha : a.hasChildren = false) : ListsChildren info offset (.ok [])
  | list {position : Nat} {a : Abbreviation} {result : Except Fault (List Entry)}
      (hlocate : info.toEntryIndex.locate offset = .ok (position, a)) (ha : a.hasChildren = true)
      (hlist : info.Lists offset (position + 1) result) : ListsChildren info offset result

theorem error_of_closeAfter {opened : Nat} {e : Fault} (h : info.closeAfter parent budget opened position = .error e) :
    e = openChildren parent := by
  induction budget generalizing opened position with
  | zero =>
    cases h
    rfl
  | succ budget ih =>
    unfold closeAfter at h
    split at h
    · cases h
      rfl
    · split at h
      · cases h
      · exact ih h
    · exact ih h

theorem closeAfter_eq : info.closeAfter parent (info.entries.size + 1) 0 position =
    match info.closeOf position with
    | some null => .ok (null + 1)
    | none => .error (openChildren parent) := by
  cases hclose : info.closeOf position with
  | some null => exact closeAfter_of_closeOf hclose
  | none =>
    cases hafter : info.closeAfter parent (info.entries.size + 1) 0 position with
    | error e => rw [error_of_closeAfter hafter]
    | ok next =>
      obtain ⟨count, hcount, -⟩ := countToClose_of_closeAfter hafter
      rw [closeOf, hcount] at hclose
      cases hclose

theorem passChildren_eq_behind (ha : a.hasChildren = true) :
    info.passChildren offset a position = info.behind offset a position := by
  simp only [passChildren, behind, ha, closeAfter_eq]
  rfl

theorem lt_of_behind (h : info.behind offset a position = .ok next) : position < next := by
  unfold behind at h
  cases ha : a.hasChildren with
  | false =>
    rw [ha] at h
    cases h
    omega
  | true =>
    rw [ha] at h
    obtain ⟨sibling, hsibling, h⟩ := ok_of_bind h
    cases sibling with
    | some target =>
      cases h
      exact lt_of_siblingPosition hsibling
    | none =>
      simp only at h
      split at h
      · rename_i null hnull
        cases h
        obtain ⟨count, -, rfl⟩ := closeOf_eq_some.mp hnull
        omega
      · cases h

theorem childrenFrom_entry (hentry : info.entries[position]? = some ⟨offset, some a⟩) :
    (info.childrenFrom (budget + 1) parent (some 0) position).map Prod.fst = (do
      let next ← info.behind offset a position
      ((info.childrenFrom budget parent (some 0) next).map Prod.fst).map (.ofAbbreviation offset a [] :: ·)) := by
  simp only [childrenFrom, hentry]
  cases ha : a.hasChildren with
  | false =>
    simp only [behind, ha]
    show Except.map Prod.fst (info.childrenFrom budget parent (some 0) (position + 1) >>= _) = Except.map _ _
    rcases info.childrenFrom budget parent (some 0) (position + 1) with e | ⟨siblings, last⟩ <;> rfl
  | true =>
    rw [← passChildren_eq_behind ha]
    cases info.passChildren offset a position with
    | error e => rfl
    | ok next =>
      show Except.map Prod.fst (info.childrenFrom budget parent (some 0) next >>= _) = Except.map _ _
      rcases info.childrenFrom budget parent (some 0) next with e | ⟨siblings, last⟩ <;> rfl

theorem lists_childrenFrom (hbudget : info.entries.size < position + budget) :
    info.Lists parent position ((info.childrenFrom budget parent (some 0) position).map Prod.fst) := by
  -- the budget lasts, since every entry that is read is further on in the index
  induction budget generalizing position with
  | zero => exact .unclosed (Array.getElem?_eq_none (by omega))
  | succ budget ih =>
    rcases hentry : info.entries[position]? with _ | ⟨offset, _ | a⟩
    · simp only [childrenFrom, hentry]
      exact .unclosed hentry
    · simp only [childrenFrom, hentry]
      exact .closed hentry
    · rw [childrenFrom_entry hentry]
      cases hbehind : info.behind offset a position with
      | error e => exact .refused hentry hbehind
      | ok next =>
        have hahead := lt_of_behind hbehind
        exact .entry hentry hbehind (ih (by omega))

theorem exists_budget {e : IndexedEntry} (hentry : info.entries[position]? = some e)
    (hbudget : info.entries.size < position + budget) : ∃ rest, budget = rest + 1 := by
  obtain ⟨hlt, -⟩ := Array.getElem?_eq_some_iff.mp hentry
  exact ⟨budget - 1, by omega⟩

theorem Lists.childrenFrom_eq {result : Except Fault (List Entry)} (h : info.Lists parent position result)
    (hbudget : info.entries.size < position + budget) :
    (info.childrenFrom budget parent (some 0) position).map Prod.fst = result := by
  induction h generalizing budget with
  | unclosed hnone =>
    cases budget with
    | zero => rfl
    | succ rest =>
      simp only [childrenFrom, hnone]
      rfl
  | closed hnull =>
    obtain ⟨rest, rfl⟩ := exists_budget hnull hbudget
    simp only [childrenFrom, hnull]
    rfl
  | refused hentry hbehind =>
    obtain ⟨rest, rfl⟩ := exists_budget hentry hbudget
    rw [childrenFrom_entry hentry, hbehind]
    rfl
  | @entry _ next _ _ result hentry hbehind _ ih =>
    obtain ⟨rest, rfl⟩ := exists_budget hentry hbudget
    have hahead := lt_of_behind hbehind
    have hrest : (info.childrenFrom rest parent (some 0) next).map Prod.fst = result := ih (by omega)
    rw [childrenFrom_entry hentry, hbehind, ← hrest]
    rfl

theorem childrenOf_of_locate (hlocate : info.toEntryIndex.locate offset = .ok (position, a)) : info.childrenOf offset =
    if a.hasChildren then (info.childrenFrom (info.entries.size + 1) offset (some 0) (position + 1)).map Prod.fst
    else .ok [] := by
  rw [childrenOf, treeAt_of_locate hlocate]
  cases a.hasChildren with
  | false => rfl
  | true =>
    simp only [Bool.not_true, Bool.false_eq_true, if_false, if_true]
    rcases info.childrenFrom (info.entries.size + 1) offset (some 0) (position + 1) with e | ⟨children, next⟩ <;> rfl

theorem listsChildren_iff {result : Except Fault (List Entry)} :
    info.ListsChildren offset result ↔ info.childrenOf offset = result := by
  constructor
  · intro h
    cases h with
    | unknown hlocate =>
      rw [childrenOf, treeAt, hlocate]
      rfl
    | leaf hlocate ha => rw [childrenOf_of_locate hlocate, if_neg (Bool.eq_false_iff.mp ha)]
    | list hlocate ha hlist =>
      rw [childrenOf_of_locate hlocate, if_pos ha]
      exact hlist.childrenFrom_eq (by omega)
  · rintro rfl
    cases hlocate : info.toEntryIndex.locate offset with
    | error e =>
      rw [childrenOf, treeAt, hlocate]
      exact .unknown hlocate
    | ok located =>
      obtain ⟨position, a⟩ := located
      rw [childrenOf_of_locate hlocate]
      cases ha : a.hasChildren with
      | false => exact .leaf hlocate ha
      | true => exact .list hlocate ha (lists_childrenFrom (by omega))

theorem Lists.place {result : Except Fault (List Entry)} (h : info.Lists parent position result)
    (hresult : result = .ok children) {child : Entry} (hchild : child ∈ children) :
    ∃ place a, position ≤ place ∧ info.entries[place]? = some ⟨child.offset, some a⟩ := by
  induction h generalizing children with
  | unclosed => cases hresult
  | closed =>
    cases hresult
    cases hchild
  | refused => cases hresult
  | @entry position next offset a result hentry hbehind _ ih =>
    cases result with
    | error e => cases hresult
    | ok rest =>
      cases hresult
      rcases List.mem_cons.mp hchild with rfl | hchild
      · exact ⟨position, a, Nat.le_refl _, hentry⟩
      · obtain ⟨place, b, hplace, hat⟩ := ih rfl hchild
        have hahead := lt_of_behind hbehind
        exact ⟨place, b, by omega, hat⟩

theorem place_of_mem_childrenOf (h : info.childrenOf parent = .ok children) {child : Entry}
    (hchild : child ∈ children) :
    ∃ position a place b, info.toEntryIndex.locate parent = .ok (position, a) ∧ position < place ∧
      info.entries[place]? = some ⟨child.offset, some b⟩ := by
  cases listsChildren_iff.mpr h with
  | leaf => cases hchild
  | list hlocate ha hlist =>
    obtain ⟨place, b, hplace, hat⟩ := hlist.place rfl hchild
    exact ⟨_, _, place, b, hlocate, hplace, hat⟩

/-! ## The descent -/

/-- Looking for the scopes inside an entry that cover an address ends with a result, after however many of them. -/
inductive Descends (info : DebugInfo) (pc : UInt32) : (offset : UInt32) → Except Fault Context → Prop
  | unlisted {offset : UInt32} {e : Fault} (hlist : info.ListsChildren offset (.error e)) :
      Descends info pc offset (.error e)
  | undecided {offset : UInt32} {children : List Entry} {e : Fault} (hlist : info.ListsChildren offset (.ok children))
      (hscope : children.findM? (info.scopeCovers pc) = .error e) : Descends info pc offset (.error e)
  | innermost {offset : UInt32} {children : List Entry} (hlist : info.ListsChildren offset (.ok children))
      (hscope : children.findM? (info.scopeCovers pc) = .ok none) : Descends info pc offset (.ok [])
  | inward {offset : UInt32} {children : List Entry} {scope : Entry} {result : Except Fault Context}
      (hlist : info.ListsChildren offset (.ok children))
      (hscope : children.findM? (info.scopeCovers pc) = .ok (some scope))
      (hrest : Descends info pc scope.offset result) : Descends info pc offset (result.map (scope :: ·))

/-- Looking for the context of an address in a unit ends with a result. -/
inductive DescendsFrom (info : DebugInfo) (unit : UnitSummary) (pc : UInt32) : Except Fault Context → Prop
  | rootless {e : Fault} (hroot : info.entryAt unit.header.firstEntry = .error e) : DescendsFrom info unit pc (.error e)
  | root {root : Entry} {result : Except Fault Context} (hroot : info.entryAt unit.header.firstEntry = .ok root)
      (hscopes : info.Descends pc root.offset result) : DescendsFrom info unit pc (result.map (root :: ·))

/-- The child is the first one of the listed children that is a scope and covers the address, and it is further on. -/
structure LeadsTo (info : DebugInfo) (pc : UInt32) (parent child : Entry) : Prop where
  first : info.FirstScope pc parent child
  tag : child.tag = .subprogram ∨ child.tag = .lexicalBlock ∨ child.tag = .inlinedSubroutine
  covers : info.Covers pc child
  offset_lt : parent.offset < child.offset

/-- No child of the entry is a scope that covers the address. -/
def IsInnermost (info : DebugInfo) (pc : UInt32) (entry : Entry) : Prop :=
  ∃ children, info.childrenOf entry.offset = .ok children ∧ ∀ child ∈ children, info.scopeCovers pc child = .ok false

/-- The entries lead from the root of the unit as far inwards as scopes cover the address. -/
structure SoundContext (info : DebugInfo) (unit : UnitSummary) (pc : UInt32) (context : Context) : Prop where
  root : ∃ root, info.entryAt unit.header.firstEntry = .ok root ∧ context.head? = some root
  inward : context.IsChain (info.LeadsTo pc)
  innermost : ∀ last ∈ context.getLast?, info.IsInnermost pc last

section

variable (hsorted : info.entries.toList.Pairwise fun a b => a.offset < b.offset)
include hsorted

theorem offset_lt_of_mem_childrenOf (h : info.childrenOf parent = .ok children) {child : Entry}
    (hchild : child ∈ children) : parent < child.offset := by
  obtain ⟨position, a, place, b, hlocate, hlt, hplace⟩ := place_of_mem_childrenOf h hchild
  exact offset_lt hsorted (entry_of_locate hlocate) hplace hlt

theorem locate_lt_of_mem_childrenOf (h : info.childrenOf parent = .ok children) {child : Entry}
    (hchild : child ∈ children) {later : Nat} {b : Abbreviation}
    (hparent : info.toEntryIndex.locate parent = .ok (position, a))
    (hlater : info.toEntryIndex.locate child.offset = .ok (later, b)) : position < later := by
  have hoffset := offset_lt_of_mem_childrenOf hsorted h hchild
  by_contra hle
  have hback := offset_le hsorted (entry_of_locate hlater) (entry_of_locate hparent) (Nat.le_of_not_lt hle)
  exact UInt32.not_le.mpr hoffset hback

theorem descends_scopesWithin (hpositive : 0 < budget) (hbudget : ∀ position a,
      info.toEntryIndex.locate offset = .ok (position, a) → info.entries.size < position + budget) :
    info.Descends pc offset (info.scopesWithin pc budget offset) := by
  -- again the budget lasts: every scope is further on in the index than the one before it
  induction budget generalizing offset with
  | zero => cases hpositive
  | succ budget ih =>
    unfold scopesWithin
    cases hchildren : info.childrenOf offset with
    | error e => exact .unlisted (listsChildren_iff.mpr hchildren)
    | ok children =>
      have hlist := listsChildren_iff.mpr hchildren
      rcases hscope : children.findM? (info.scopeCovers pc) with e | _ | scope
      · simp only [bind, Except.bind, hscope]
        exact .undecided hlist hscope
      · simp only [bind, Except.bind, hscope]
        exact .innermost hlist hscope
      · have hmem := mem_of_findM? hscope
        obtain ⟨position, a, place, b, hlocate, hlt, hplace⟩ := place_of_mem_childrenOf hchildren hmem
        obtain ⟨hinside, -⟩ := Array.getElem?_eq_some_iff.mp hplace
        have hroom := hbudget position a hlocate
        have hrest : info.Descends pc scope.offset (info.scopesWithin pc budget scope.offset) := by
          refine ih (by omega) fun later c hlater => ?_
          have hahead := locate_lt_of_mem_childrenOf hsorted hchildren hmem hlocate hlater
          omega
        have hinward := Descends.inward hlist hscope hrest
        simp only [bind, Except.bind, hscope]
        cases hwithin : info.scopesWithin pc budget scope.offset <;> rwa [hwithin] at hinward

theorem descendsFrom_contextIn (unit : UnitSummary) (pc : UInt32) :
    info.DescendsFrom unit pc (info.contextIn unit pc) := by
  unfold contextIn
  cases hroot : info.entryAt unit.header.firstEntry with
  | error e => exact .rootless hroot
  | ok root =>
    have hscopes : info.Descends pc root.offset (info.scopesWithin pc (info.entries.size + 1) root.offset) :=
      descends_scopesWithin hsorted (Nat.succ_pos _) fun position a _ => by omega
    show info.DescendsFrom unit pc (do return root :: (← info.scopesWithin pc (info.entries.size + 1) root.offset))
    rw [bind_pure_comp]
    exact .root hroot hscopes

theorem leadsTo_of_findM? {parent scope : Entry} (hlist : info.ListsChildren parent.offset (.ok children))
    (hscope : children.findM? (info.scopeCovers pc) = .ok (some scope)) : info.LeadsTo pc parent scope := by
  have hmem := mem_of_findM? hscope
  obtain ⟨before, after, rfl, hbefore, hcovers⟩ := findM?_eq_some.mp hscope
  have hchildren := listsChildren_iff.mp hlist
  obtain ⟨htag, hcovers'⟩ := scopeCovers_iff.mp hcovers
  refine ⟨⟨before, after, hchildren, hbefore, hcovers⟩, ?_, hcovers',
    offset_lt_of_mem_childrenOf hsorted hchildren hmem⟩
  simpa [Tag.isScope, or_assoc] using htag

theorem Descends.sound {result : Except Fault Context} (h : info.Descends pc offset result) {scopes : Context}
    (hresult : result = .ok scopes) {parent : Entry} (hparent : parent.offset = offset) :
    (parent :: scopes).IsChain (info.LeadsTo pc) ∧ ∀ last ∈ (parent :: scopes).getLast?, info.IsInnermost pc last := by
  induction h generalizing scopes parent with
  | unlisted => cases hresult
  | undecided => cases hresult
  | innermost hlist hscope =>
    cases hresult
    subst hparent
    refine ⟨.singleton _, fun last hlast => ?_⟩
    obtain rfl : parent = last := Option.some.inj hlast
    exact ⟨_, listsChildren_iff.mp hlist, false_of_findM?_eq_none hscope⟩
  | @inward offset children scope result hlist hscope _ ih =>
    cases result with
    | error e => cases hresult
    | ok rest =>
      cases hresult
      subst hparent
      obtain ⟨hchain, hlast⟩ := ih rfl rfl
      exact ⟨.cons_cons (leadsTo_of_findM? hsorted hlist hscope) hchain, hlast⟩

theorem DescendsFrom.sound {result : Except Fault Context} (h : info.DescendsFrom unit pc result) {context : Context}
    (hresult : result = .ok context) : info.SoundContext unit pc context := by
  cases h with
  | rootless => cases hresult
  | @root root result hroot hscopes =>
    cases result with
    | error e => cases hresult
    | ok scopes =>
      cases hresult
      obtain ⟨hinward, hinnermost⟩ := hscopes.sound hsorted rfl rfl
      exact ⟨⟨root, hroot, rfl⟩, hinward, hinnermost⟩

end

theorem run_unitCovering (pc : UInt32) (recent : Option Nat) :
    ∃ found last, info.unitCovering pc recent = .ok found last := by
  rw [unitCovering, run_bind, run_unitNumberCovering]
  by_cases hcovers : recent.any (info.unitCovers pc) = true
  · rw [if_pos hcovers]
    exact ⟨_, _, rfl⟩
  · rw [if_neg hcovers]
    exact ⟨_, _, rfl⟩

/--
Whatever sibling attributes and addresses are written, looking for the context of an address ends. The context is empty
if no unit is found for the address. Else it leads from the root of the unit from scope to scope, and each of them is the
first one among its parent's children that covers the address, until there is none. The sections `.debug_info` and
`.debug_types` are below 4 GiB together, so that each of their bytes has an offset of its own.
-/
theorem context_sound {sections : Sections} (hbuild : build sections = .ok info)
    (hspace : sections.space.size < 2 ^ 32) (pc : UInt32) (recent : Option Nat) :
    ∃ found last, info.unitCovering pc recent = .ok found last ∧
      (found = none → info.contextAt pc recent = .ok [] last) ∧
      ∀ unit, found = some unit → ∃ result, info.DescendsFrom unit pc result ∧
        info.contextAt pc recent = (liftExcept result : Query Context) last ∧
        ∀ context, result = .ok context → info.SoundContext unit pc context := by
  have hsorted := increasing_of_build hbuild hspace
  obtain ⟨found, last, hfound⟩ := info.run_unitCovering pc recent
  refine ⟨found, last, hfound, ?_, ?_⟩
  · rintro rfl
    rw [contextAt, run_bind_of_ok hfound]
    rfl
  · rintro unit rfl
    have hfrom := descendsFrom_contextIn hsorted unit pc
    have hrun : info.contextAt pc recent = (liftExcept (info.contextIn unit pc) : Query Context) last := by
      rw [contextAt, run_bind_of_ok hfound]
    exact ⟨info.contextIn unit pc, hfrom, hrun, fun context => hfrom.sound hsorted⟩

/--
The sibling attribute of the first function leads into the second one, to its block, which so is listed as a child of
the root.
-/
def misled : Sections where
  info := #[39, 0, 0, 0, 4, 0, 0, 0, 0, 0, 4, 1, 0, 1, 0, 0, 0, 1, 0, 0, 4, 32, 0,
    2, 0, 1, 0, 0, 0x10, 0, 0, 0, 3, 0, 1, 0, 0, 8, 0, 0, 0, 0, 0]
  abbreviations := #[1, 0x11, 1, 0x11, 1, 0x12, 6, 0, 0, 2, 0x2e, 1, 0x11, 1, 0x12, 6, 0, 0,
    3, 0x0b, 0, 0x11, 1, 0x12, 6, 0, 0, 4, 0x2e, 1, 1, 0x11, 0, 0, 0]

theorem context_misled : (build misled).toOption.bind (fun info =>
    (info.contextAt 0x104).run' none |>.map fun context => (info.siblingTells 1, context.map Entry.offset)) =
    some (false, [11, 32]) := by
  decide +kernel

theorem context_sound_misled : ∃ info unit context last, build misled = .ok info ∧ misled.space.size < 2 ^ 32 ∧
    ¬ info.SiblingsTell ∧ info.unitCovering 0x104 none = .ok (some unit) last ∧
      info.contextAt 0x104 none = .ok context last ∧ context.map Entry.offset = [11, 32] ∧
        info.DescendsFrom unit 0x104 (.ok context) ∧ info.SoundContext unit 0x104 context := by
  obtain ⟨info, hbuild, hfacts⟩ := Option.bind_eq_some_iff.mp context_misled
  obtain ⟨context, hrun, hfacts⟩ := Option.map_eq_some_iff.mp hfacts
  simp only [Prod.mk.injEq] at hfacts
  obtain ⟨htells, hoffsets⟩ := hfacts
  obtain ⟨last, hcontext⟩ := run_of_run' hrun
  have hbuild := ok_of_toOption hbuild
  have hspace : misled.space.size < 2 ^ 32 := by decide
  obtain ⟨found, last', hfound, hnone, hsome⟩ := context_sound hbuild hspace 0x104 none
  cases found with
  | none =>
    cases hcontext.symm.trans (hnone rfl)
    cases hoffsets
  | some unit =>
    obtain ⟨result, hends, hresult, hsound⟩ := hsome unit rfl
    obtain ⟨rfl, rfl⟩ := ran_of_liftExcept (hresult.symm.trans hcontext)
    have hmisled : ¬ info.SiblingsTell := fun h => Bool.false_ne_true (htells.symm.trans (h 1))
    exact ⟨info, unit, context, last, hbuild, hspace, hmisled, hfound, hcontext, hoffsets, hends, hsound context rfl⟩

end DebugInfo

end FirmwareDebug
