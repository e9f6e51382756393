import FirmwareDebug.Proofs.Index.Appended
import FirmwareDebug.Proofs.SameEntries
import FirmwareDebug.Proofs.UnitMemory

/-!
# What one more unit without entries does to the answers

Whatever starts from an entry or from an address is answered as it is without the unit. The static objects of an image
are looked for below the root of every unit, and there is none below which to look.
-/

namespace FirmwareDebug.DebugInfo

variable {info info' : DebugInfo} {sections : Sections} {fields : List UInt8} {header : UnitHeader} {offset : UInt32}

/-! ## Entries -/

theorem exists_readInUnit_both (htypes : sections.types = #[]) (hbuild : build sections = .ok info)
    (hbuild' : build (sections.withUnit fields) = .ok info')
    (hinfo : info' = { info with sections := sections.withUnit fields, units := info.units.push (.ofHeader header) })
    {position : Nat} {a : Abbreviation} (h : info.toEntryIndex.locate offset = .ok (position, a)) :
    ∃ unit, info.ReadInUnit unit a offset ∧ info'.ReadInUnit unit a offset ∧ unit.header.inTypes = false ∧
      unit.header.stop.toNat ≤ sections.info.size := by
  have hspace := space_lt_of_build htypes hbuild
  have htypes' : (sections.withUnit fields).types = #[] := htypes
  have hspace' := space_lt_of_build htypes' hbuild'
  obtain ⟨htile, -⟩ := Sections.unitHeaders_tile (parts_of_build hbuild).1 hspace
  obtain ⟨htile', -⟩ := Sections.unitHeaders_tile (parts_of_build hbuild').1 hspace'
  have hentry := entry_of_locate h
  have hentry' : info'.entries[position]? = some ⟨offset, some a⟩ := by
    rw [hinfo]
    exact hentry
  obtain ⟨unit, hunit⟩ := exists_readInUnit hbuild hspace (Array.mem_of_getElem? hentry) rfl
  obtain ⟨own, hown⟩ := exists_readInUnit hbuild' hspace' (Array.mem_of_getElem? hentry') rfl
  obtain ⟨number, hnumber, hcontains⟩ := (unitAt_eq_ok htile).mp hunit.unitAt_eq
  have hnumber' : info'.units[number]? = some unit := by
    obtain ⟨hlt, -⟩ := Array.getElem?_eq_some_iff.mp hnumber
    rw [hinfo, Array.getElem?_push_lt hlt, ← hnumber, Array.getElem?_eq_getElem hlt]
  cases ((unitAt_eq_ok htile').mpr ⟨number, hnumber', hcontains⟩).symm.trans hown.unitAt_eq
  have hmem : unit.header ∈ info.headers :=
    List.mem_map_of_mem (Array.mem_toList_iff.mpr (Array.mem_of_getElem? hnumber))
  obtain ⟨hin, -, hstop⟩ := inTypes_of_noTypes htypes hbuild _ hmem
  exact ⟨unit, hunit, hown, hin, hstop⟩

theorem sameEntries_withUnit (htypes : sections.types = #[]) (hbuild : build sections = .ok info)
    (hbuild' : build (sections.withUnit fields) = .ok info')
    (hinfo : info' = { info with sections := sections.withUnit fields, units := info.units.push (.ofHeader header) }) :
    info.SameEntries info' := by
  obtain ⟨hsections, -⟩ := entries_of_build hbuild
  obtain ⟨hsections', -⟩ := entries_of_build hbuild'
  have hlocate (offset : UInt32) : info'.toEntryIndex.locate offset = info.toEntryIndex.locate offset := by
    rw [hinfo]
    rfl
  have hread {offset : UInt32} {found : Nat × Abbreviation} (h : info.toEntryIndex.locate offset = .ok found) :=
    exists_readInUnit_both htypes hbuild hbuild' hinfo h
  exact {
    entries_eq := by rw [hinfo]
    sections_eq := ⟨_, by rw [hsections, hsections']; rfl⟩
    signatures_eq := by rw [hinfo]
    unitAt_eq := fun hfound => by
      obtain ⟨unit, hunit, hunit', -⟩ := hread hfound
      rw [hunit.unitAt_eq, hunit'.unitAt_eq]
    attributes_eq := fun offset => by
      cases hfound : info.toEntryIndex.locate offset with
      | error e => rw [attributes_of_error hfound, attributes_of_error ((hlocate offset).trans hfound)]
      | ok found =>
        obtain ⟨unit, hunit, hunit', hin, hstop⟩ := hread hfound
        rw [hunit.attributes_eq, hunit'.attributes_eq, hsections, hsections', Sections.readInUnit_withUnit hin hstop]
    attribute?_eq := fun offset name => by
      cases hfound : info.toEntryIndex.locate offset with
      | error e => rw [attribute?_of_error hfound, attribute?_of_error ((hlocate offset).trans hfound)]
      | ok found =>
        obtain ⟨unit, hunit, hunit', hin, hstop⟩ := hread hfound
        rw [hunit.attribute?_eq, hunit'.attribute?_eq, hsections, hsections', Sections.readInUnit_withUnit hin hstop] }

theorem locate_end (htypes : sections.types = #[]) (hbuild : build sections = .ok info)
    (hend : offset.toNat = sections.info.size) : info.toEntryIndex.locate offset = .error (.notAnEntry offset) := by
  have hspace := space_lt_of_build htypes hbuild
  obtain ⟨htile, -⟩ := Sections.unitHeaders_tile (parts_of_build hbuild).1 hspace
  cases hfound : info.toEntryIndex.locate offset with
  | error e => rw [locate_error hfound]
  | ok found =>
    obtain ⟨unit, hunit⟩ := exists_readInUnit hbuild hspace (Array.mem_of_getElem? (entry_of_locate hfound)) rfl
    obtain ⟨number, hnumber, hcontains⟩ := (unitAt_eq_ok htile).mp hunit.unitAt_eq
    have hmem : unit.header ∈ info.headers :=
      List.mem_map_of_mem (Array.mem_toList_iff.mpr (Array.mem_of_getElem? hnumber))
    obtain ⟨-, -, hstop⟩ := inTypes_of_noTypes htypes hbuild _ hmem
    rw [UnitHeader.contains, Bool.and_eq_true, decide_eq_true_eq, decide_eq_true_eq] at hcontains
    have hlt : offset.toNat < unit.header.stop.toNat := UInt32.lt_iff_toNat_lt.mp hcontains.2
    omega

/-! ## Units -/

section

variable (hsame : info.SameEntries info') (hunits : info'.units = info.units.push (.ofHeader header))

include hunits in
theorem unitCovers_more (address : UInt32) : info'.unitCovers address = info.unitCovers address := by
  funext number
  unfold unitCovers
  rw [hunits, Array.getElem?_push]
  split
  · rename_i hnumber
    rw [hnumber, Array.getElem?_eq_none (Nat.le_refl _)]
    rfl
  · rfl

include hunits in
theorem firstUnitCovering_more (address : UInt32) :
    info'.firstUnitCovering address = info.firstUnitCovering address := by
  have hlast : (#[UnitSummary.ofHeader header].findIdx? fun unit => !unit.isTypeUnit && unit.ranges.contains address) =
      none := by
    rw [Array.findIdx?_eq_none_iff]
    intro unit hunit
    rw [Array.mem_singleton.mp hunit]
    exact Bool.and_false _
  unfold firstUnitCovering
  rw [hunits, Array.push_eq_append, Array.findIdx?_append, hlast]
  exact Option.or_none

theorem lt_of_unitCovers {address : UInt32} {number : Nat} (h : info.unitCovers address number = true) :
    number < info.units.size := by
  obtain ⟨unit, hunit, -⟩ := Option.any_eq_true _ _ |>.mp h
  exact (Array.getElem?_eq_some_iff.mp hunit).1

theorem lt_of_firstUnitCovering {address : UInt32} {number : Nat} (h : info.firstUnitCovering address = some number) :
    number < info.units.size :=
  (Array.findIdx?_eq_some_iff_getElem.mp h).1

include hunits in
theorem unitCovering_more (address : UInt32) : info'.unitCovering address = info.unitCovering address := by
  have hunit {number : Nat} (h : number < info.units.size) : info'.units[number]? = info.units[number]? := by
    rw [hunits, Array.getElem?_push_lt h, Array.getElem?_eq_getElem h]
  funext recent
  unfold unitCovering
  rw [run_bind, run_bind, run_unitNumberCovering, run_unitNumberCovering, unitCovers_more hunits,
    firstUnitCovering_more hunits]
  by_cases hrecent : recent.any (info.unitCovers address) = true
  · rw [if_pos hrecent]
    obtain ⟨number, rfl, hcovers⟩ := Option.any_eq_true _ _ |>.mp hrecent
    show EStateM.Result.ok info'.units[number]? _ = .ok info.units[number]? _
    rw [hunit (lt_of_unitCovers hcovers)]
  · rw [if_neg hrecent]
    cases hfirst : info.firstUnitCovering address with
    | none => rfl
    | some number =>
      show EStateM.Result.ok info'.units[number]? _ = .ok info.units[number]? _
      rw [hunit (lt_of_firstUnitCovering hfirst)]

include hsame hunits in
theorem contextAt_more (pc : UInt32) : info'.contextAt pc = info.contextAt pc := by
  unfold contextAt
  simp only [unitCovering_more hunits, hsame.contextIn_eq]

theorem flatten_mapM_append {ε α β : Type} {f : α → Except ε (List β)} {a : α} (ha : f a = .ok []) (l : List α) :
    (do return (← (l ++ [a]).mapM f).flatten) = (do return (← l.mapM f).flatten : Except ε (List β)) := by
  rw [List.mapM_append, List.mapM_cons, ha]
  cases l.mapM f with
  | error e => rfl
  | ok found =>
    show Except.ok (found ++ [[]]).flatten = Except.ok found.flatten
    rw [List.flatten_append]
    exact congrArg Except.ok (List.append_nil _)

include hsame hunits in
theorem fromLineTables_more {α : Type} (f : LineTable → Except Fault (List α)) :
    info'.fromLineTables f = info.fromLineTables f := by
  unfold fromLineTables
  rw [hunits, Array.toList_push]
  simp only [hsame.lineTable_eq]
  refine flatten_mapM_append ?_ _
  rfl

theorem staticObjectsOf_ofHeader {e : Fault} (h : info.toEntryIndex.locate header.firstEntry = .error e) :
    info.staticObjectsOf (.ofHeader header) = .error e := by
  unfold staticObjectsOf treeAt
  rw [show (UnitSummary.ofHeader header).header.firstEntry = header.firstEntry from rfl, h]
  rfl

include hsame hunits in
theorem staticObjects_more (hempty : header.IsEmpty) {e : Fault}
    (h : info'.toEntryIndex.locate header.firstEntry = .error e) :
    info'.staticObjects = (info.staticObjects >>= fun _ => .error e) := by
  have hlast : [UnitSummary.ofHeader header].filter (fun unit => !unit.isTypeUnit) = [.ofHeader header] := by
    have hsignature : (UnitSummary.ofHeader header).header.signature = none := hempty.signature_eq
    rw [List.filter_singleton, UnitSummary.isTypeUnit, hsignature]
    rfl
  unfold staticObjects
  simp only [hunits, Array.toList_push, List.filter_append, hlast]
  rw [List.mapM_append, List.mapM_cons, staticObjectsOf_ofHeader h, funext hsame.staticObjectsOf_eq]
  cases (info.units.toList.filter fun unit => !unit.isTypeUnit).mapM info.staticObjectsOf with
  | error e => rfl
  | ok found => rfl

end

/-! ## The whole image -/

/-- What is asked of an image as a whole or about an address is answered alike, but for the static objects. -/
structure AnswersAlike (info info' : DebugInfo) : Prop where
  functions_eq : info'.functions = info.functions
  addressesOfLine_eq : ∀ file line, info'.addressesOfLine file line = info.addressesOfLine file line
  sourceFiles_eq : info'.sourceFiles = info.sourceFiles
  /-- The unit that was found before is the same afterwards too. -/
  contextAt_eq : ∀ pc recent, info'.contextAt pc recent = info.contextAt pc recent

/-- All is answered alike. -/
def Harmless (info info' : DebugInfo) : Prop :=
  info.AnswersAlike info' ∧ info'.staticObjects = info.staticObjects

/--
Where there is no section of types, one more unit without entries changes no answer but that about the static objects:
where they were found before, the place behind the header is now no entry. So it is harmless exactly where they were not
found without it.
-/
theorem emptyUnit_harmless_iff (htypes : sections.types = #[]) (hfields : UnitHeader.OfCompilation fields)
    (hbuild : build sections = .ok info) (hbuild' : build (sections.withUnit fields) = .ok info') :
    info.AnswersAlike info' ∧
      info'.staticObjects = (info.staticObjects >>= fun _ =>
        .error (.notAnEntry (UInt32.ofNat (sections.withUnit fields).info.size))) ∧
      (info.Harmless info' ↔ ∃ e, info.staticObjects = .error e) := by
  obtain ⟨header, hempty, hend, hinfo⟩ := build_withUnit htypes hfields hbuild hbuild'
  have hsame := sameEntries_withUnit htypes hbuild hbuild' hinfo
  have hunits : info'.units = info.units.push (.ofHeader header) := by rw [hinfo]
  have hlines {α : Type} (f : LineTable → Except Fault (List α)) : info'.fromLineTables f = info.fromLineTables f :=
    fromLineTables_more hsame hunits f
  have halike : info.AnswersAlike info' := {
    functions_eq := hsame.functions_eq
    addressesOfLine_eq := fun file line => by rw [addressesOfLine, hlines, addressesOfLine]
    sourceFiles_eq := by rw [sourceFiles, hlines, sourceFiles]
    contextAt_eq := fun pc recent => by rw [contextAt_more hsame hunits] }
  have htypes' : (sections.withUnit fields).types = #[] := htypes
  have hstatic := staticObjects_more hsame hunits hempty (locate_end htypes' hbuild' hend)
  rw [← hend, UInt32.ofNat_toNat]
  refine ⟨halike, hstatic, fun h => ?_, fun ⟨e, h⟩ => ⟨halike, ?_⟩⟩
  · have hsame := hstatic.symm.trans h.2
    cases hobjects : info.staticObjects with
    | error e => exact ⟨e, rfl⟩
    | ok objects =>
      rw [hobjects] at hsame
      cases hsame
  · rw [hstatic, h]
    rfl

/-- A compilation with one variable, which has an address. -/
def oneStatic : Sections where
  info := #[16, 0, 0, 0, 4, 0, 0, 0, 0, 0, 4, 1, 2, 5, 3, 0, 0, 0, 0x20, 0]
  abbreviations := #[1, 0x11, 1, 0, 0, 2, 0x34, 0, 2, 0x18, 0, 0, 0]

/-- The header of one more compilation, behind its length. -/
def headerAlone : List UInt8 := littleEndianBytes 2 4 ++ (wordBytes 0 ++ [4])

theorem ofCompilation_headerAlone : UnitHeader.OfCompilation headerAlone :=
  .old (by decide : (2 : UInt16) ≤ 4) (by decide) 0

theorem objects_oneStatic : (build oneStatic).toOption.bind (fun info =>
    (build (oneStatic.withUnit headerAlone)).toOption.map fun info' =>
      (info.staticObjects.toOption.map (List.map DataObject.offset), info'.staticObjects.toOption.map List.length)) =
    some (some [12], none) := by
  decide +kernel

theorem emptyUnit_oneStatic : ∃ info info', build oneStatic = .ok info ∧
    build (oneStatic.withUnit headerAlone) = .ok info' ∧ oneStatic.types = #[] ∧
      UnitHeader.OfCompilation headerAlone ∧ info.AnswersAlike info' ∧
        (∃ objects, info.staticObjects = .ok objects) ∧ info'.staticObjects = .error (.notAnEntry 31) := by
  obtain ⟨info, hbuild, hfacts⟩ := Option.bind_eq_some_iff.mp objects_oneStatic
  obtain ⟨info', hbuild', hfacts⟩ := Option.map_eq_some_iff.mp hfacts
  obtain ⟨objects, hobjects, -⟩ := Option.map_eq_some_iff.mp (Prod.mk.inj hfacts).1
  have hbuild := ok_of_toOption hbuild
  have hbuild' := ok_of_toOption hbuild'
  have hobjects := ok_of_toOption hobjects
  obtain ⟨halike, hstatic, -⟩ := emptyUnit_harmless_iff rfl ofCompilation_headerAlone hbuild hbuild'
  rw [hobjects] at hstatic
  exact ⟨info, info', hbuild, hbuild', rfl, ofCompilation_headerAlone, halike, ⟨objects, hobjects⟩, hstatic⟩

/-- A unit without entries is not harmless to every image. -/
theorem not_emptyUnit_harmless : ¬ ∀ (sections : Sections) (fields : List UInt8) (info info' : DebugInfo),
    sections.types = #[] → UnitHeader.OfCompilation fields → build sections = .ok info →
      build (sections.withUnit fields) = .ok info' → info.Harmless info' := by
  intro h
  obtain ⟨info, hbuild, hfacts⟩ := Option.bind_eq_some_iff.mp objects_oneStatic
  obtain ⟨info', hbuild', hfacts⟩ := Option.map_eq_some_iff.mp hfacts
  obtain ⟨-, hsame⟩ := h _ _ info info' rfl ofCompilation_headerAlone (ok_of_toOption hbuild) (ok_of_toOption hbuild')
  rw [hsame] at hfacts
  obtain ⟨hfound, hnone⟩ := Prod.mk.inj hfacts
  obtain ⟨objects, hobjects, -⟩ := Option.map_eq_some_iff.mp hfound
  rw [hobjects] at hnone
  cases hnone

end FirmwareDebug.DebugInfo
