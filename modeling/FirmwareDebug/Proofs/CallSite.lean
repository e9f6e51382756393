import FirmwareDebug.Proofs.Scope

/-!
# Which call returns to an address

The call that returns to an address is looked for below one scope after the other, from the innermost out. Below a
scope is what the index has between the scope and the place where it is closed; that row is told by the index alone,
without reading trees.
-/

namespace FirmwareDebug

theorem first_unique {α : Type} {p : α → Prop} {before before' after after' : List α} {a a' : α}
    (h : before ++ a :: after = before' ++ a' :: after') (ha : p a) (ha' : p a') (hbefore : ∀ b ∈ before, ¬ p b)
    (hbefore' : ∀ b ∈ before', ¬ p b) : before = before' ∧ a = a' := by
  rcases List.append_eq_append_iff.mp h with ⟨middle, rfl, hrest⟩ | ⟨middle, rfl, hrest⟩
  · cases middle with
    | nil =>
      cases hrest
      exact ⟨(List.append_nil _).symm, rfl⟩
    | cons b middle =>
      cases hrest
      exact absurd ha (hbefore' a (List.mem_append_right _ (.head _)))
  · cases middle with
    | nil =>
      cases hrest
      exact ⟨List.append_nil _, rfl⟩
    | cons b middle =>
      cases hrest
      exact absurd ha' (hbefore a' (List.mem_append_right _ (.head _)))

namespace DebugInfo

variable {info : DebugInfo} {address : UInt32} {recent last : Option Nat}

/-! ## What is below a scope -/

/-- The row of the index that begins with the entry at an offset and ends where that entry is closed. -/
structure RowOf (info : DebugInfo) (offset : UInt32) (row : List IndexedEntry) : Prop where
  placed : ∃ before behind a, info.entries.toList = before ++ row ++ behind ∧
    info.locate offset = .ok (before.length, a)
  begun : row ≠ []
  closed : openBehind 0 [] row = []
  opened : ∀ front back, row = front ++ back → front ≠ [] → back ≠ [] → openBehind 0 [] front ≠ []

/-- The entries are those behind the one at an offset, up to where it is closed, in the order of the index. -/
def Below (info : DebugInfo) (offset : UInt32) (entries : List Entry) : Prop :=
  ∃ row, info.RowOf offset row ∧ row.tail.filterMap IndexedEntry.entry? = entries

theorem RowOf.unique {offset : UInt32} {row row' : List IndexedEntry} (h : info.RowOf offset row)
    (h' : info.RowOf offset row') : row = row' := by
  obtain ⟨before, behind, a, hentries, hlocate⟩ := h.placed
  obtain ⟨before', behind', a', hentries', hlocate'⟩ := h'.placed
  obtain ⟨hlength, -⟩ := Prod.mk.inj (Except.ok.inj (hlocate.symm.trans hlocate'))
  rw [hentries, List.append_assoc, List.append_assoc] at hentries'
  obtain ⟨-, hrows⟩ := List.append_inj hentries' hlength
  -- One of the rows is a part of the other one that ends where it is closed already, so it is all of it.
  rcases List.append_eq_append_iff.mp hrows with ⟨rest, rfl, -⟩ | ⟨rest, rfl, -⟩
  · have hrest : rest = [] := by
      by_contra hrest
      exact h'.opened row rest rfl h.begun hrest h.closed
    rw [hrest, List.append_nil]
  · have hrest : rest = [] := by
      by_contra hrest
      exact h.opened row' rest rfl h'.begun hrest h'.closed
    rw [hrest, List.append_nil]

theorem Below.unique {offset : UInt32} {entries entries' : List Entry} (h : info.Below offset entries)
    (h' : info.Below offset entries') : entries = entries' := by
  obtain ⟨row, hrow, rfl⟩ := h
  obtain ⟨row', hrow', rfl⟩ := h'
  rw [hrow.unique hrow']

theorem below_of_treeAt {offset : UInt32} {tree : Entry} (h : info.treeAt offset none = .ok tree) :
    info.Below offset (tree.preorder.tail.map Entry.bare) := by
  obtain ⟨before, row, behind, a, hentries, hlocate, -, hread⟩ := treeAt_readFrom h
  have hroot := hread.root
  cases row with
  | nil => cases hroot
  | cons e inside =>
    rw [List.head?_cons, Option.bind_some] at hroot
    have horder := hread.preorder_eq
    rw [List.filterMap_cons, hroot] at horder
    refine ⟨e :: inside, ⟨⟨before, behind, a, hentries, hlocate⟩, nofun, hread.closed, hread.opened⟩, ?_⟩
    rw [List.tail_cons, List.map_tail, horder, List.tail_cons]

/-! ## Calls -/

/-- A value tells the address, itself or by its number in the table of addresses. -/
inductive TellsAddress (info : DebugInfo) (bases : UnitBases) (address : UInt32) : AttributeValue → Prop
  | itself : TellsAddress info bases address (.address address)
  | number {index : UInt64} (hindex : info.sections.addressAt bases index = .ok address) :
      TellsAddress info bases address (.addressIndex index)

/-- The value is that of the return address of an entry; without one, its first address stands for it. -/
def ReturnValue (info : DebugInfo) (offset : UInt32) (value : AttributeValue) : Prop :=
  info.attribute? offset .callReturnPc = .ok (some value) ∨
    info.attribute? offset .callReturnPc = .ok none ∧ info.attribute? offset .lowPc = .ok (some value)

/-- The entry is a call, and what is executed next when it is done is at the address. -/
structure IsCallBackTo (info : DebugInfo) (address : UInt32) (site : Entry) : Prop where
  tag : site.tag = .callSite ∨ site.tag = .gnuCallSite
  told : ∃ unit value, info.unitAt site.offset = .ok unit ∧ info.ReturnValue site.offset value ∧
    info.TellsAddress unit.bases address value

theorem addressOf_eq_some {bases : UnitBases} {value : AttributeValue} :
    info.sections.addressOf bases value = .ok (some address) ↔ info.TellsAddress bases address value := by
  constructor
  · intro h
    unfold Sections.addressOf at h
    split at h
    · cases h
      exact .itself
    · rename_i index
      cases hindex : info.sections.addressAt bases index with
      | error e =>
        rw [hindex] at h
        cases h
      | ok found =>
        rw [hindex] at h
        cases h
        exact .number hindex
    · cases h
  · rintro (_ | hindex)
    · rfl
    · rw [Sections.addressOf, hindex]
      rfl

theorem returnAddressOf_eq_some {site : UInt32} : info.returnAddressOf site = .ok (some address) ↔
    ∃ unit value, info.unitAt site = .ok unit ∧ info.ReturnValue site value ∧
      info.TellsAddress unit.bases address value := by
  constructor
  · intro h
    simp only [returnAddressOf, bind_eq_ok_iff] at h
    obtain ⟨unit, hunit, own, hown, h⟩ := h
    cases own with
    | some value => exact ⟨unit, value, hunit, .inl hown, addressOf_eq_some.mp h⟩
    | none =>
      obtain ⟨first, hfirst, h⟩ := ok_of_bind h
      cases first with
      | some value => exact ⟨unit, value, hunit, .inr ⟨hown, hfirst⟩, addressOf_eq_some.mp h⟩
      | none => cases h
  · rintro ⟨unit, value, hunit, hown | ⟨hown, hfirst⟩, htells⟩
    · simp only [returnAddressOf, hunit, hown]
      exact addressOf_eq_some.mpr htells
    · simp only [returnAddressOf, hunit, hown, hfirst]
      exact addressOf_eq_some.mpr htells

theorem returnsTo_iff {entry : Entry} :
    info.returnsTo address entry = .ok true ↔ info.IsCallBackTo address entry := by
  unfold returnsTo
  have htag : entry.tag.isCallSite = true ↔ entry.tag = .callSite ∨ entry.tag = .gnuCallSite := by
    simp [Tag.isCallSite]
  cases hsite : entry.tag.isCallSite with
  | false =>
    refine ⟨nofun, fun h => ?_⟩
    rw [htag.mpr h.tag] at hsite
    cases hsite
  | true =>
    constructor
    · intro h
      obtain ⟨found, hfound, h⟩ := ok_of_bind h
      have hsame : found = some address := by simpa using Except.ok.inj h
      rw [hsame] at hfound
      exact ⟨htag.mp hsite, returnAddressOf_eq_some.mp hfound⟩
    · intro h
      rw [returnAddressOf_eq_some.mpr h.told]
      simp [pure, Except.pure, bind, Except.bind]

/-! ## The search -/

/-- The entry is the first one below the scope that is a call back to the address. -/
def FirstCallBelow (info : DebugInfo) (address : UInt32) (scope site : Entry) : Prop :=
  ∃ before after, info.Below scope.offset (before ++ site :: after) ∧
    (∀ e ∈ before, ¬ info.IsCallBackTo address e) ∧ info.IsCallBackTo address site

/-- There is no call back to the address below the scope. -/
def NoCallBelow (info : DebugInfo) (address : UInt32) (scope : Entry) : Prop :=
  ∃ entries, info.Below scope.offset entries ∧ ∀ e ∈ entries, ¬ info.IsCallBackTo address e

/-- What is answered about an address in a context: the first call below the innermost scope that has any, if one has. -/
inductive CallIn (info : DebugInfo) (address : UInt32) (context : Context) : Option Entry → Prop
  | found {inner outer : List Entry} {scope site : Entry} (hscopes : context.scopes = inner ++ scope :: outer)
      (hinner : ∀ e ∈ inner, info.NoCallBelow address e) (hsite : info.FirstCallBelow address scope site) :
      CallIn info address context (some site)
  | missing (hscopes : ∀ e ∈ context.scopes, info.NoCallBelow address e) : CallIn info address context none

theorem FirstCallBelow.unique {scope site site' : Entry} (h : info.FirstCallBelow address scope site)
    (h' : info.FirstCallBelow address scope site') : site = site' := by
  obtain ⟨before, after, hentries, hbefore, hsite⟩ := h
  obtain ⟨before', after', hentries', hbefore', hsite'⟩ := h'
  exact (first_unique (hentries.unique hentries') hsite hsite' hbefore hbefore').2

theorem FirstCallBelow.not_noCallBelow {scope site : Entry} (h : info.FirstCallBelow address scope site) :
    ¬ info.NoCallBelow address scope := by
  obtain ⟨before, after, hentries, -, hsite⟩ := h
  rintro ⟨entries, hbelow, hnone⟩
  rw [← hentries.unique hbelow] at hnone
  exact hnone site (List.mem_append_right _ (.head _)) hsite

theorem CallIn.unique {context : Context} {found found' : Option Entry} (h : info.CallIn address context found)
    (h' : info.CallIn address context found') : found = found' := by
  cases h with
  | missing hnone =>
    cases h' with
    | missing => rfl
    | found hscopes _ hsite =>
      rw [hscopes] at hnone
      exact absurd (hnone _ (List.mem_append_right _ (.head _))) hsite.not_noCallBelow
  | @found inner outer scope site hscopes hinner hsite =>
    cases h' with
    | missing hnone =>
      rw [hscopes] at hnone
      exact absurd (hnone _ (List.mem_append_right _ (.head _))) hsite.not_noCallBelow
    | @found inner' outer' scope' site' hscopes' hinner' hsite' =>
      -- The scopes with a call below them are what the search tells apart, and the first of them is one.
      obtain ⟨-, rfl⟩ := first_unique (p := fun e => ∃ site, info.FirstCallBelow address e site)
        (hscopes.symm.trans hscopes') ⟨site, hsite⟩ ⟨site', hsite'⟩
        (fun e he ⟨_, hcall⟩ => hcall.not_noCallBelow (hinner e he))
        (fun e he ⟨_, hcall⟩ => hcall.not_noCallBelow (hinner' e he))
      rw [hsite.unique hsite']

theorem noCallBelow_of_callBelow {scope : Entry} (h : info.callBelow address scope = .ok none) :
    info.NoCallBelow address scope := by
  obtain ⟨tree, htree, h⟩ := ok_of_bind h
  refine ⟨_, below_of_treeAt htree, fun e he hcall => ?_⟩
  obtain ⟨inside, hinside, rfl⟩ := List.mem_map.mp he
  have hfalse : info.returnsTo address inside.bare = .ok false := false_of_findM?_eq_none h inside hinside
  rw [returnsTo_iff.mpr hcall] at hfalse
  cases hfalse

theorem firstCallBelow_of_callBelow {scope site : Entry} (h : info.callBelow address scope = .ok (some site)) :
    info.FirstCallBelow address scope site.bare := by
  obtain ⟨tree, htree, h⟩ := ok_of_bind h
  obtain ⟨before, after, hinside, hbefore, hsite⟩ := findM?_eq_some.mp h
  have hbelow := below_of_treeAt htree
  rw [hinside, List.map_append, List.map_cons] at hbelow
  refine ⟨_, _, hbelow, fun e he hcall => ?_, returnsTo_iff.mp hsite⟩
  obtain ⟨inside, hmem, rfl⟩ := List.mem_map.mp he
  have hfalse : info.returnsTo address inside.bare = .ok false := hbefore inside hmem
  rw [returnsTo_iff.mpr hcall] at hfalse
  cases hfalse

theorem callBelowAny_cases {scopes : List Entry} {found : Option Entry}
    (h : info.callBelowAny address scopes = .ok found) :
    (found = none ∧ ∀ e ∈ scopes, info.NoCallBelow address e) ∨
      ∃ inner scope outer site, found = some site ∧ scopes = inner ++ scope :: outer ∧
        (∀ e ∈ inner, info.NoCallBelow address e) ∧ info.FirstCallBelow address scope site := by
  induction scopes with
  | nil =>
    cases h
    exact .inl ⟨rfl, List.forall_mem_nil _⟩
  | cons scope rest ih =>
    obtain ⟨below, hbelow, h⟩ := ok_of_bind h
    cases below with
    | some site =>
      cases h
      exact .inr ⟨[], scope, rest, _, rfl, rfl, List.forall_mem_nil _, firstCallBelow_of_callBelow hbelow⟩
    | none =>
      have hnone := noCallBelow_of_callBelow hbelow
      rcases ih h with ⟨hfound, hall⟩ | ⟨inner, first, outer, site, hfound, rfl, hinner, hsite⟩
      · exact .inl ⟨hfound, List.forall_mem_cons.mpr ⟨hnone, hall⟩⟩
      · exact .inr ⟨scope :: inner, first, outer, site, hfound, rfl, List.forall_mem_cons.mpr ⟨hnone, hinner⟩, hsite⟩

theorem callIn_of_callBelowAny {context : Context} {found : Option Entry}
    (h : info.callBelowAny address context.scopes = .ok found) : info.CallIn address context found := by
  rcases callBelowAny_cases h with ⟨rfl, hnone⟩ | ⟨inner, scope, outer, site, rfl, hscopes, hinner, hsite⟩
  · exact .missing hnone
  · exact .found hscopes hinner hsite

/--
A call that is found is one back to the address, below a scope that encloses the calling instruction, and no scope
further in has one. If none is found, there is none below any of the scopes, the outermost one included. So the
answer is the only one there can be.
-/
theorem callReturningTo_sound {found : Option Entry} (h : info.callReturningTo address recent = .ok found last) :
    ∃ context, info.contextAt (address - 1) recent = .ok context last ∧ info.CallIn address context found ∧
      ∀ other, info.CallIn address context other → other = found := by
  obtain ⟨context, next, hcontext, h⟩ := ran_of_bind h
  obtain ⟨hcall, rfl⟩ := ran_of_liftExcept h
  have hfound := callIn_of_callBelowAny hcall
  exact ⟨context, hcontext, hfound, fun other hother => hother.unique hfound⟩

/-- Two calls back to the same address, one of them in a block of the function; its address stands in a table. -/
def callTwice : Sections where
  info := #[44, 0, 0, 0, 4, 0, 0, 0, 0, 0, 4, 1, 0, 1, 0, 0, 0, 1, 0, 0, 2, 0, 1, 0, 0, 0x20, 0, 0, 0,
    3, 0x10, 1, 0, 0, 4, 8, 1, 0, 0, 0x10, 0, 0, 0, 5, 0, 0, 0, 0]
  abbreviations := #[1, 0x11, 1, 0x11, 1, 0x12, 6, 0, 0, 2, 0x2e, 1, 0x11, 1, 0x12, 6, 0, 0,
    3, 0x89, 0x82, 1, 0, 0x11, 1, 0, 0, 4, 0x0b, 1, 0x11, 1, 0x12, 6, 0, 0, 5, 0x48, 0, 0x7d, 0x1b, 0, 0, 0]
  addresses := #[0x10, 1, 0, 0]

theorem call_callTwice : (build callTwice).toOption.bind (fun info =>
    (info.contextAt 0x10f).run' none |>.bind fun context => (info.callReturningTo 0x110).run' none |>.map fun site =>
      (context.map Entry.offset, site.map Entry.offset, (info.entryAt 29).toOption.map fun other =>
        (info.returnsTo 0x110 other).toOption)) = some ([11, 20, 34], some 43, some (some true)) := by
  decide +kernel

theorem callReturningTo_callTwice : ∃ info context site other last, build callTwice = .ok info ∧
    info.contextAt (0x110 - 1) none = .ok context last ∧ context.map Entry.offset = [11, 20, 34] ∧
      info.callReturningTo 0x110 none = .ok (some site) last ∧ site.offset = 43 ∧
        info.CallIn 0x110 context (some site) ∧ info.entryAt 29 = .ok other ∧ info.IsCallBackTo 0x110 other := by
  obtain ⟨info, hbuild, hfacts⟩ := Option.bind_eq_some_iff.mp call_callTwice
  obtain ⟨context, hcontext, hfacts⟩ := Option.bind_eq_some_iff.mp hfacts
  obtain ⟨found, hfound, hfacts⟩ := Option.map_eq_some_iff.mp hfacts
  simp only [Prod.mk.injEq] at hfacts
  obtain ⟨hoffsets, hsite, hother⟩ := hfacts
  obtain ⟨site, rfl, hsite⟩ := Option.map_eq_some_iff.mp hsite
  obtain ⟨other, hentry, hother⟩ := Option.map_eq_some_iff.mp hother
  obtain ⟨last, hcall⟩ := run_of_run' hfound
  obtain ⟨last', hrun⟩ := run_of_run' hcontext
  obtain ⟨searched, hsearched, hin, -⟩ := callReturningTo_sound hcall
  cases hsearched.symm.trans hrun
  exact ⟨info, context, site, other, last, ok_of_toOption hbuild, hsearched, hoffsets, hcall, Option.some.inj hsite, hin,
    ok_of_toOption hentry, returnsTo_iff.mp (ok_of_toOption hother)⟩

end DebugInfo

end FirmwareDebug
