import FirmwareDebug.Proofs.Index.Abbreviations
import FirmwareDebug.Proofs.Index.Entries

/-!
# Every index that is built is right

Units tile the bytes they share and entries tile their units, so offsets increase and each lookup by
halves finds the one place it is about.
-/

namespace FirmwareDebug

/-! ## Headers of units -/

namespace UnitSummary

theorem header_add {sections : Sections} {bases : UnitBases} {draft after : Draft} {a : Attribute}
    (h : Draft.add sections bases draft a = .ok after) : after.unit.header = draft.unit.header := by
  unfold Draft.add at h
  simp only at h
  repeat' split at h
  all_goals first
    | cases h
      rfl
    | obtain ⟨_, -, h⟩ := ok_of_bind h
      cases h
      rfl

theorem header_foldlM {sections : Sections} {bases : UnitBases} {attributes : List Attribute}
    {draft last : Draft} (h : attributes.foldlM (Draft.add sections bases) draft = .ok last) :
    last.unit.header = draft.unit.header := by
  induction attributes generalizing draft with
  | nil =>
    cases h
    rfl
  | cons a rest ih =>
    obtain ⟨after, hafter, h⟩ := ok_of_bind h
    rw [ih h, header_add hafter]

theorem header_build {index : EntryIndex} {header : UnitHeader} {unit : UnitSummary}
    (h : build index header = .ok unit) : unit.header = header := by
  unfold build at h
  simp only at h
  split at h
  · cases h
    rfl
  · split at h
    · cases h
      rfl
    · simp only [bind_eq_ok_iff, pure_eq_ok_iff] at h
      obtain ⟨attributes, -, draft, hdraft, ranges, -, rfl⟩ := h
      exact header_foldlM hdraft

end UnitSummary

/-! ## Offsets of entries -/

section

variable {table : AbbreviationTable} {encoding : Encoding} {start : Nat} {bytes : List UInt8}
  {entries : List IndexedEntry}

theorem EntriesTile.bounds (h : EntriesTile table encoding start bytes entries) :
    ∀ e ∈ entries, start ≤ e.offset.toNat ∧ e.offset.toNat < start + bytes.length := by
  induction h with
  | done => simp
  | next hoffset hfront _ ih =>
    have hpos := hfront.length_pos
    rw [List.length_append]
    refine List.forall_mem_cons.mpr ⟨by omega, fun e hmem => ?_⟩
    have := ih e hmem
    omega

theorem EntriesTile.increasing (h : EntriesTile table encoding start bytes entries) :
    entries.Pairwise fun a b => a.offset < b.offset := by
  induction h with
  | done => exact .nil
  | next hoffset hfront hback ih =>
    refine .cons (fun e hmem => UInt32.lt_iff_toNat_lt.mpr ?_) ih
    have hpos := hfront.length_pos
    have := hback.bounds e hmem
    omega

theorem EntriesTile.mem_table (h : EntriesTile table encoding start bytes entries) :
    ∀ e ∈ entries, ∀ a, e.abbreviation = some a → a ∈ table.entries := by
  induction h with
  | done => simp
  | next _ hfront _ ih =>
    refine List.forall_mem_cons.mpr ⟨fun a ha => ?_, ih⟩
    rw [ha] at hfront
    cases hfront with
    | entry hcode hne hfind =>
      unfold AbbreviationTable.find at hfind
      split at hfind
      · rename_i found
        cases hfind
        exact List.mem_of_find?_eq_some found
      · cases hfind

end

theorem increasing_of_tile {sections : Sections} {start stop : Nat} {headers : List UnitHeader}
    {parts : List (List IndexedEntry)} (htile : UnitHeader.Tile start stop headers)
    (h : List.Forall₂ (UnitHeader.HasEntries sections) headers parts) :
    (parts.flatten.Pairwise fun a b => a.offset < b.offset) ∧
      ∀ e ∈ parts.flatten, start ≤ e.offset.toNat := by
  induction h generalizing start with
  | nil => simp
  | cons hheader hrest ih =>
    obtain ⟨hoffset, hstop, hbehind⟩ := htile
    obtain ⟨hincreasing, hfrom⟩ := ih hbehind
    obtain ⟨hlt, hle, table, -, hpart⟩ := hheader
    have hbounds := hpart.bounds
    rw [UInt32.lt_iff_toNat_lt] at hlt
    rw [UInt32.le_iff_toNat_le] at hle
    rw [Array.length_toList, Array.size_extract] at hbounds
    rw [List.flatten_cons]
    refine ⟨List.pairwise_append.mpr ⟨hpart.increasing, hincreasing, fun a ha b hb => ?_⟩, fun e hmem => ?_⟩
    · have := hbounds a ha
      have := hfrom b hb
      rw [UInt32.lt_iff_toNat_lt]
      omega
    · rcases List.mem_append.mp hmem with hmem | hmem
      · have := hbounds e hmem
        omega
      · have := hfrom e hmem
        omega

namespace DebugInfo

/-! ## Lookups -/

variable {info : DebugInfo}

theorem locate_eq (hsorted : info.entries.toList.Pairwise fun a b => a.offset < b.offset) {i : Nat}
    {e : IndexedEntry} (h : info.entries[i]? = some e) :
    info.locate e.offset = match e.abbreviation with
      | some a => .ok (i, a)
      | none => .error (.notAnEntry e.offset) := by
  unfold EntryIndex.locate EntryIndex.position?
  rw [(searchKey_eq_some hsorted).mpr ⟨e, h, rfl⟩]
  cases habbreviation : e.abbreviation with
  | none => simp only [h, Option.bind_some, habbreviation]
  | some a => simp only [h, Option.bind_some, habbreviation]

theorem entryAt_entry (hsorted : info.entries.toList.Pairwise fun a b => a.offset < b.offset)
    {e : IndexedEntry} (hmem : e ∈ info.entries) {a : Abbreviation} (ha : e.abbreviation = some a) :
    info.entryAt e.offset = .ok (.ofAbbreviation e.offset a []) := by
  obtain ⟨i, hi⟩ := Array.mem_iff_getElem?.mp hmem
  unfold entryAt EntryIndex.abbreviation
  rw [locate_eq hsorted hi, ha]
  rfl

theorem entryAt_other (hsorted : info.entries.toList.Pairwise fun a b => a.offset < b.offset)
    {offset : UInt32} (h : ∀ e ∈ info.entries, e.offset = offset → e.abbreviation = none) :
    info.entryAt offset = .error (.notAnEntry offset) := by
  have hlocate : info.locate offset = .error (.notAnEntry offset) := by
    cases hplace : info.position? offset with
    | none =>
      unfold EntryIndex.locate
      rw [hplace]
    | some i =>
      obtain ⟨e, he, rfl⟩ := (searchKey_eq_some hsorted).mp hplace
      rw [locate_eq hsorted he, h e (Array.mem_of_getElem? he) rfl]
  unfold entryAt EntryIndex.abbreviation
  rw [hlocate]
  rfl

theorem unitContains_iff {offset : UInt32} {number : Nat} :
    info.unitContains offset number = true ↔
      ∃ unit, info.units[number]? = some unit ∧ unit.header.contains offset := by
  unfold unitContains
  rw [Option.any_eq_true]

theorem begins_iff_lt_partitionPoint {start stop : Nat} (htile : UnitHeader.Tile start stop info.headers)
    (offset : UInt32) (i : Nat) :
    info.units[i]?.any (fun unit => unit.header.offset ≤ offset) = true ↔
      i < partitionPoint info.units fun unit => unit.header.offset ≤ offset := by
  have hpairwise := List.pairwise_map.mp htile.pairwise
  refine any_iff_lt_partitionPoint (hpairwise.imp fun hab hb => ?_) i
  rw [decide_eq_true_eq] at hb ⊢
  exact UInt32.le_trans (UInt32.le_trans (UInt32.le_of_lt hab.1) hab.2) hb

theorem partitionPoint_of_contains {start stop : Nat} (htile : UnitHeader.Tile start stop info.headers)
    {offset : UInt32} {number : Nat} (h : info.unitContains offset number = true) :
    partitionPoint info.units (fun unit => unit.header.offset ≤ offset) = number + 1 := by
  have hcount := begins_iff_lt_partitionPoint htile offset
  obtain ⟨unit, hunit, hcontains⟩ := unitContains_iff.mp h
  simp only [UnitHeader.contains, Bool.and_eq_true, decide_eq_true_eq] at hcontains
  have hlt : number < partitionPoint info.units fun unit => unit.header.offset ≤ offset := by
    refine (hcount number).mp ?_
    rw [hunit, Option.any_some, decide_eq_true_eq]
    exact hcontains.1
  by_contra hne
  -- A later unit that begins at the offset or before it would begin inside this one.
  have hlater := (hcount (number + 1)).mpr (by omega)
  rw [Option.any_eq_true] at hlater
  obtain ⟨later, hlater, hle⟩ := hlater
  rw [Array.getElem?_eq_some_iff] at hunit hlater
  obtain ⟨hnumber, rfl⟩ := hunit
  obtain ⟨hnext, rfl⟩ := hlater
  have hpairwise := List.pairwise_map.mp htile.pairwise
  have hbehind := (List.pairwise_iff_getElem.mp hpairwise number (number + 1) (by simpa using hnumber)
    (by simpa using hnext) (Nat.lt_succ_self _)).2
  refine UInt32.lt_irrefl offset (UInt32.lt_of_lt_of_le hcontains.2 (UInt32.le_trans hbehind ?_))
  exact of_decide_eq_true hle

theorem searchUnit_iff {start stop : Nat} (htile : UnitHeader.Tile start stop info.headers)
    {offset : UInt32} {number : Nat} :
    info.searchUnit offset = some number ↔ info.unitContains offset number = true := by
  unfold searchUnit
  simp only
  constructor
  · intro h
    split at h
    · cases h
    · split at h
      · rename_i hcontains
        cases h
        exact hcontains
      · cases h
  · intro h
    rw [partitionPoint_of_contains htile h, if_neg (Nat.succ_ne_zero _), Nat.add_sub_cancel, if_pos h]

theorem run_unitNumberNear (offset : UInt32) (recent : Option Nat) :
    ((info.unitNumberNear offset).run' recent).run =
      if recent.any (info.unitContains offset) then recent else info.searchUnit offset := by
  unfold unitNumberNear
  by_cases hrecent : recent.any (info.unitContains offset) = true
  · simp [hrecent]
  · by_cases hfound : (info.searchUnit offset).isSome = true
    · simp [hrecent, hfound]
    · simp [hrecent, hfound]

/-- What was found before makes no difference, since no two units contain the offset. -/
theorem unitNumberNear_iff {start stop : Nat} (htile : UnitHeader.Tile start stop info.headers)
    (recent : Option Nat) {offset : UInt32} {number : Nat} :
    ((info.unitNumberNear offset).run' recent).run = some number ↔
      info.unitContains offset number = true := by
  rw [run_unitNumberNear]
  split
  · rename_i hrecent
    rw [Option.any_eq_true] at hrecent
    obtain ⟨n, rfl, hn⟩ := hrecent
    rw [← (searchUnit_iff htile).mpr hn, searchUnit_iff htile]
  · exact searchUnit_iff htile

theorem unit_of_unitAt {offset : UInt32} {unit : UnitSummary} (h : info.unitAt offset = .ok unit) :
    ∃ number : Nat, info.unitNumberAt offset = some number ∧ info.units[number]? = some unit := by
  unfold unitAt at h
  split at h
  · rename_i found hfound
    cases h
    exact Option.bind_eq_some_iff.mp hfound
  · cases h

theorem unitAt_eq_ok {start stop : Nat} (htile : UnitHeader.Tile start stop info.headers) {offset : UInt32}
    {unit : UnitSummary} : info.unitAt offset = .ok unit ↔
      ∃ number : Nat, info.units[number]? = some unit ∧ unit.header.contains offset = true := by
  have hnumber (number : Nat) : info.unitNumberAt offset = some number ↔ info.unitContains offset number = true :=
    unitNumberNear_iff htile none
  constructor
  · intro h
    obtain ⟨number, hfound, hunit⟩ := unit_of_unitAt h
    obtain ⟨own, hown, hcontains⟩ := unitContains_iff.mp ((hnumber number).mp hfound)
    cases hunit.symm.trans hown
    exact ⟨number, hunit, hcontains⟩
  · rintro ⟨number, hunit, hcontains⟩
    unfold unitAt
    rw [(hnumber number).mpr (unitContains_iff.mpr ⟨unit, hunit, hcontains⟩), Option.bind_some, hunit]

theorem unitNumberAfter_iff {start stop : Nat} (htile : UnitHeader.Tile start stop info.headers)
    (history : List UInt32) {offset : UInt32} {number : Nat} :
    info.unitNumberAfter history offset = some number ↔
      ∃ unit, info.units[number]? = some unit ∧ unit.header.contains offset := by
  have hafter : info.unitNumberAfter history offset =
      ((info.unitNumberNear offset).run' ((history.mapM info.unitNumberNear).run none).run.2).run := rfl
  rw [hafter, unitNumberNear_iff htile, unitContains_iff]

/-! ## The whole index -/

theorem headers_of_mapM {index : EntryIndex} {headers : List UnitHeader} {units : List UnitSummary}
    (h : headers.mapM (UnitSummary.build index) = .ok units) : units.map UnitSummary.header = headers := by
  rcases mapM_cases (UnitSummary.build index) headers with
    ⟨values, hvalues, hall⟩ | ⟨_, _, _, e, _, _, _, hfail⟩
  · rw [hvalues] at h
    cases h
    clear hvalues
    induction hall with
    | nil => rfl
    | cons hunit _ ih => rw [List.map_cons, UnitSummary.header_build hunit, ih]
  · rw [hfail] at h
    cases h

theorem parts_of_build {sections : Sections} {info : DebugInfo} (h : build sections = .ok info) :
    sections.unitHeaders = .ok info.headers ∧ EntryIndex.build sections info.headers = .ok info.toEntryIndex ∧
      info.headers.mapM (UnitSummary.build info.toEntryIndex) = .ok info.units.toList ∧
        CallFrame.Table.read sections.frame = .ok info.frames ∧
          info.signatures = (info.units.toList.filterMap signatureOf).reverse := by
  simp only [build, bind_eq_ok_iff, pure_eq_ok_iff] at h
  obtain ⟨headers, hheaders, index, hindex, frames, hframes, units, hunits, rfl⟩ := h
  obtain rfl := headers_of_mapM hunits
  exact ⟨hheaders, hindex, hunits, hframes, rfl⟩

theorem abbreviation_placed {sections : Sections} {headers : List UnitHeader} {entries : List IndexedEntry}
    {parts : List (List IndexedEntry)} (hflatten : entries = parts.flatten)
    (hparts : List.Forall₂ (UnitHeader.HasEntries sections) headers parts) {e : IndexedEntry}
    (hmem : e ∈ entries) {a : Abbreviation} (ha : e.abbreviation = some a) :
    ∃ table offset, AbbreviationTable.read sections.abbreviations offset = .ok table ∧
      a ∈ table.entries := by
  subst hflatten
  induction hparts with
  | nil => cases hmem
  | @cons header part _ _ hheader _ ih =>
    rw [List.flatten_cons] at hmem
    rcases List.mem_append.mp hmem with hmem | hmem
    · obtain ⟨-, -, table, htable, htile⟩ := hheader
      exact ⟨table, header.abbreviations, htable, htile.mem_table e hmem a ha⟩
    · exact ih hmem

theorem hasEntries_of_build {sections : Sections} {info : DebugInfo} (h : build sections = .ok info)
    (hspace : sections.space.size < 2 ^ 32) : UnitHeader.Tile 0 sections.space.size info.headers ∧
      ∃ parts, info.entries.toList = parts.flatten ∧
        List.Forall₂ (UnitHeader.HasEntries sections) info.headers parts := by
  obtain ⟨hheaders, hindex, -⟩ := parts_of_build h
  obtain ⟨tables, htables, entries, hentries, hindex⟩ := EntryIndex.build_eq_ok_iff.mp hindex
  obtain ⟨htile, hholds⟩ := Sections.unitHeaders_tile hheaders hspace
  have htables := Sections.tables_of_tablesOf (fun _ hmem => absurd hmem List.not_mem_nil) htables
  rw [← hindex]
  exact ⟨htile, Sections.hasEntries_of_entriesOf htables hholds hspace hentries⟩

/-- Every index that is built says what is written in its sections. -/
theorem wellIndexed_of_build {sections : Sections} {info : DebugInfo} (h : build sections = .ok info)
    (hsize : sections.size < 2 ^ 32) : info.WellIndexed sections := by
  obtain ⟨htile, parts, hflatten, hparts⟩ := hasEntries_of_build h (Sections.space_lt hsize)
  have hincreasing := (increasing_of_tile htile hparts).1
  rw [← hflatten] at hincreasing
  exact {
    units_tile := htile
    increasing := hincreasing
    entries_tile := ⟨parts, hflatten, hparts⟩
    entryAt_entry := fun e hmem a ha => entryAt_entry hincreasing hmem ha
    entryAt_other := fun offset hother => entryAt_other hincreasing hother
    abbreviation_place := fun e hmem a ha header _ table htable b hb => by
      have hsection : sections.abbreviations.size < 2 ^ 32 := by
        unfold Sections.size at hsize
        omega
      have hmem := Array.mem_toList_iff.mpr hmem
      obtain ⟨own, _, hown, hplaced⟩ := abbreviation_placed hflatten hparts hmem ha
      exact (AbbreviationTable.placedIn_of_read hown a hplaced).eq_of_offset_eq hsection
        (AbbreviationTable.placedIn_of_read htable b hb)
    unitNumber_iff := fun history offset number => unitNumberAfter_iff htile history }

/-- Two units; the table of the second one is the end of the first one's. -/
def overlapping : Sections where
  info := #[11, 0, 0, 0, 4, 0, 0, 0, 0, 0, 4, 1, 2, 5, 0, 9, 0, 0, 0, 4, 0, 5, 0, 0, 0, 4, 2, 7]
  abbreviations := #[1, 0x11, 1, 0, 0, 2, 0x24, 0, 0x3e, 0x0b, 0, 0, 0]

theorem entries_overlapping : (build overlapping).toOption.map (fun info => info.entries.toList.map fun e =>
    (e.offset, e.abbreviation.map Abbreviation.tag)) =
      some [(11, some ⟨0x11⟩), (12, some ⟨0x24⟩), (14, none), (26, some ⟨0x24⟩)] := by
  decide +kernel

theorem wellIndexed_overlapping : ∃ info, build overlapping = .ok info ∧ overlapping.size < 2 ^ 32 ∧
    info.WellIndexed overlapping := by
  have hsize : overlapping.size < 2 ^ 32 := by decide
  cases hbuild : build overlapping with
  | error e =>
    have hentries := entries_overlapping
    rw [hbuild] at hentries
    cases hentries
  | ok info => exact ⟨info, rfl, hsize, wellIndexed_of_build hbuild hsize⟩

end DebugInfo

end FirmwareDebug
