import FirmwareDebug.Proofs.SingleAttribute
import FirmwareDebug.Proofs.Written

/-!
# A unit without entries

Behind the last unit there may be one more that is no more than its header. What is built then is the same as without
it, but for that unit: the headers in front of it are read as they were, and so are their entries and their roots.
-/

namespace FirmwareDebug

open Read

/-! ## Headers in front of more bytes -/

theorem Cursor.exists_truncated {c : Cursor} {length : Nat} (h : c.position + length ≤ c.limit) :
    ∃ unit, c.truncated? length = some unit := ⟨_, dif_pos h⟩

theorem Cursor.truncated_all {c : Cursor} {length : Nat} (h : c.limit = c.position + length) :
    c.truncated? length = some c := by
  obtain ⟨unit, hunit⟩ := c.exists_truncated (Nat.le_of_eq h.symm)
  obtain ⟨hregion, hbytes, hposition, hlimit, -⟩ := Cursor.eq_of_truncated? hunit
  have hend := hlimit.trans h.symm
  cases c
  cases unit
  cases hregion
  cases hbytes
  cases hposition
  cases hend
  exact hunit

theorem Cursor.PartOf.truncated {c d unit : Cursor} {length : Nat} (hpart : c.PartOf d)
    (h : c.truncated? length = some unit) :
    ∃ unit', d.truncated? length = some unit' ∧ unit.Agrees unit.position unit' := by
  obtain ⟨hregion, hbytes, hposition, hlimit, hinside⟩ := Cursor.eq_of_truncated? h
  have hmore := hpart.limit
  have hplace := hpart.position
  obtain ⟨unit', hunit'⟩ := d.exists_truncated (show d.position + length ≤ d.limit by omega)
  obtain ⟨hregion', hbytes', hposition', hlimit', -⟩ := Cursor.eq_of_truncated? hunit'
  refine ⟨unit', hunit', ?_, by omega, by omega, Nat.le_refl _, fun i _ hi => ?_⟩
  · rw [hregion, hregion', hpart.region]
  · rw [hbytes, hbytes']
    exact hpart.bytes i (by omega)

namespace UnitHeader

variable {bias : UInt32} {inTypes : Bool} {c d after : Cursor} {header : UnitHeader}

instance (version : UInt16) : Local (readLayout version inTypes) := by
  unfold readLayout
  infer_instance

instance (kind : UInt8) : Local (readExtras kind) := by
  unfold readExtras
  split <;> infer_instance

instance (start stop : Nat) : Local (readFields bias inTypes start stop) := by
  unfold readFields
  infer_instance

theorem read_again (hpart : c.PartOf d) (h : read bias inTypes c = .ok header after) :
    ∃ last, read bias inTypes d = .ok header last ∧ after.PartOf last := by
  obtain ⟨length, middle, unit, hlength, hfits, htruncated, heval, rfl⟩ := read_eq_ok_iff.mp h
  obtain ⟨middle', hlength', hpart'⟩ := Steady.again hpart hlength
  obtain ⟨unit', htruncated', hagrees⟩ := hpart'.truncated htruncated
  refine ⟨_, read_eq_ok_iff.mpr ⟨length, middle', unit', hlength', hfits, htruncated', ?_, rfl⟩, ?_⟩
  · rw [← Local.eval_eq hagrees, ← hpart.position, ← hpart'.position]
    exact heval
  · exact ⟨hpart'.region, congrArg (· + length.toNat) hpart'.position, hpart'.limit, hpart'.bytes⟩

theorem steps_further {headers headers' : List UnitHeader} (h : Steps (read bias inTypes) c headers)
    (hpart : c.PartOf d) (hinside : c.position ≤ c.limit) (h' : Steps (read bias inTypes) d headers') :
    ∃ more, headers' = headers ++ more ∧ Steps (read bias inTypes) { d with position := c.limit } more := by
  induction h generalizing d headers' with
  | @done c hend =>
    have hposition : d.position = c.limit := by
      rw [← hpart.position]
      omega
    refine ⟨headers', rfl, ?_⟩
    rw [← hposition]
    exact h'
  | @next c after header rest hmore hstep hrest ih =>
    have hlimit := hpart.limit
    have hposition := hpart.position
    obtain ⟨last, hread, hpart'⟩ := read_again hpart hstep
    obtain ⟨⟨stop, rfl, hstop⟩, -⟩ := read_placed hstep
    cases h' with
    | done hend => omega
    | next hmore' hstep' hrest' =>
      cases hread.symm.trans hstep'
      obtain ⟨more, rfl, hsteps⟩ := ih hpart' hstop hrest'
      obtain ⟨⟨stop', rfl, -⟩, -⟩ := read_placed hread
      exact ⟨more, rfl, hsteps⟩

/-! ## Headers alone -/

/-- What stands behind the length of a unit that is a compilation, or a part of one, and has no entries. -/
inductive OfCompilation : List UInt8 → Prop
  | old {version : UInt16} (hlow : 2 ≤ version) (hhigh : version < 5) (abbreviations : UInt32) :
      OfCompilation (littleEndianBytes 2 version.toNat ++ (wordBytes abbreviations ++ [4]))
  | new {kind : UInt8} (hkind : kind = 1 ∨ kind = 3) (abbreviations : UInt32) :
      OfCompilation (littleEndianBytes 2 5 ++ ([kind] ++ ([4] ++ wordBytes abbreviations)))
  /-- The number that ties two parts of a compilation stands at the end. -/
  | split {kind : UInt8} (hkind : kind = 4 ∨ kind = 5) (abbreviations : UInt32) (id : UInt64) :
      OfCompilation (littleEndianBytes 2 5 ++ ([kind] ++ ([4] ++ (wordBytes abbreviations ++
        littleEndianBytes 8 id.toNat))))

/-- The header of a unit without entries, which is no type unit. -/
structure IsEmpty (header : UnitHeader) : Prop where
  stop_eq : header.stop = header.firstEntry
  signature_eq : header.signature = none
  inTypes_eq : header.inTypes = false

theorem readFields_of_yields {version : UInt16} {kind : UInt8} {abbreviations : UInt32} {typeOffset : Option UInt32}
    {front middle back : List UInt8} (hlow : 2 ≤ version) (hhigh : version ≤ 5) (hfront : Yields half front version)
    (hlayout : Yields (readLayout version false) middle (kind, abbreviations, 4))
    (hextras : Yields (readExtras kind) back (none, typeOffset)) (hc : c.Holds (front ++ (middle ++ back)))
    (start : Nat) : ∃ header, (readFields bias false start c.limit).eval c = .ok header ∧ header.IsEmpty := by
  have hlimit := hc.left_eq
  simp only [List.length_append] at hlimit
  have hversion : ¬ (version < 2 ∨ 5 < version) := by
    rw [not_or, UInt16.not_lt, UInt16.not_lt]
    exact ⟨hlow, hhigh⟩
  have hback : (c.advance front.length).Holds (middle ++ back) := hc.advance
  have hlast : ((c.advance front.length).advance middle.length).Holds (back ++ []) := by
    rw [List.append_nil]
    exact hback.advance
  unfold readFields eval
  rw [run_bind, hfront c _ hc]
  simp only [if_neg hversion, run_bind, hlayout _ _ hback]
  rw [if_neg (show ¬ ((4 : UInt8) ≠ 4) by decide), run_bind, hextras _ _ hlast]
  refine ⟨_, rfl, ?_, rfl, rfl⟩
  have hend : (((c.advance front.length).advance middle.length).advance back.length).position = c.limit := by
    simp only [Cursor.advance]
    omega
  rw [hend]

theorem readFields_ofCompilation {fields : List UInt8} (h : OfCompilation fields) (hc : c.Holds fields) (start : Nat) :
    ∃ header, (readFields bias false start c.limit).eval c = .ok header ∧ header.IsEmpty := by
  have hfour : Yields byte [4] 4 := yields_byte 4
  cases h with
  | old hlow hhigh abbreviations =>
    rename_i version
    have hlayout : Yields (readLayout version false) (wordBytes abbreviations ++ [4]) (1, abbreviations, 4) := by
      unfold readLayout
      rw [if_neg (UInt16.not_le.mpr hhigh)]
      exact (yields_word abbreviations).bind (hfour.map _)
    have hextras : Yields (readExtras 1) [] (none, none) := .pure _
    rw [← List.append_nil (wordBytes abbreviations ++ [4])] at hc
    exact readFields_of_yields hlow (UInt16.le_of_lt hhigh) (yields_half version) hlayout hextras hc start
  | new hkind abbreviations =>
    rename_i kind
    have hlayout : Yields (readLayout 5 false) ([kind] ++ ([4] ++ wordBytes abbreviations)) (kind, abbreviations, 4) :=
      (yields_byte kind).bind (hfour.bind ((yields_word abbreviations).map _))
    have hextras : Yields (readExtras kind) [] (none, none) := by
      rcases hkind with rfl | rfl
      · exact .pure _
      · exact .pure _
    rw [← List.append_nil ([kind] ++ _)] at hc
    exact readFields_of_yields (by decide) (by decide) (yields_half 5) hlayout hextras hc start
  | split hkind abbreviations id =>
    rename_i kind
    have hlayout : Yields (readLayout 5 false) ([kind] ++ ([4] ++ wordBytes abbreviations)) (kind, abbreviations, 4) :=
      (yields_byte kind).bind (hfour.bind ((yields_word abbreviations).map _))
    have hlong : Yields long (littleEndianBytes 8 id.toNat) (UInt64.ofNat id.toNat) :=
      (yields_number id.toNat_lt).map UInt64.ofNat
    have hextras : Yields (readExtras kind) (littleEndianBytes 8 id.toNat) (none, none) := by
      rcases hkind with rfl | rfl
      · exact hlong.discard.bind_last (.pure _)
      · exact hlong.discard.bind_last (.pure _)
    have hassoc : [kind] ++ ([4] ++ (wordBytes abbreviations ++ littleEndianBytes 8 id.toNat)) =
        ([kind] ++ ([4] ++ wordBytes abbreviations)) ++ littleEndianBytes 8 id.toNat := by
      simp only [List.append_assoc]
    rw [hassoc] at hc
    exact readFields_of_yields (by decide) (by decide) (yields_half 5) hlayout hextras hc start

theorem OfCompilation.length_lt {fields : List UInt8} (h : OfCompilation fields) : fields.length < 0xfffffff0 := by
  have hword (n : UInt32) : (wordBytes n).length = 4 := length_littleEndianBytes _ _
  cases h <;> simp only [List.length_append, length_littleEndianBytes, hword, List.length_singleton] <;> decide

/-- A unit of which there is no more than these fields of its header. -/
def unitOf (fields : List UInt8) : List UInt8 := wordBytes (UInt32.ofNat fields.length) ++ fields

theorem exists_read_unitOf {fields : List UInt8} (h : OfCompilation fields) (hc : c.Holds (unitOf fields)) :
    ∃ header, read bias false c = .ok header { c with position := c.limit } ∧ header.IsEmpty := by
  have hlimit := hc.left_eq
  have hlength := h.length_lt
  have hcount : (UInt32.ofNat fields.length).toNat = fields.length :=
    UInt32.toNat_ofNat_of_lt' (by rw [UInt32.size]; omega)
  obtain ⟨middle, hmiddle⟩ : ∃ middle, middle = c.advance (wordBytes (UInt32.ofNat fields.length)).length := ⟨_, rfl⟩
  have hword : word c = .ok (UInt32.ofNat fields.length) middle := by
    rw [hmiddle]
    exact yields_word _ c fields hc
  have hfields : middle.Holds fields := hmiddle ▸ hc.advance
  obtain ⟨header, heval, hempty⟩ := readFields_ofCompilation h hfields c.position
  refine ⟨header, read_eq_ok_iff.mpr ⟨_, middle, middle, hword, ?_, ?_, ?_, ?_⟩, hempty⟩
  · rw [UInt32.lt_iff_toNat_lt, hcount]
    exact hlength
  · rw [hcount]
    exact Cursor.truncated_all hfields.left_eq
  · rw [hcount, ← hfields.left_eq]
    exact heval
  · rw [hcount, ← hfields.left_eq, hmiddle]
    rfl

theorem steps_unitOf {fields : List UInt8} {headers : List UnitHeader} (h : OfCompilation fields)
    (hc : c.Holds (unitOf fields)) (hsteps : Steps (read bias false) c headers) :
    ∃ header, headers = [header] ∧ header.IsEmpty := by
  have hlimit := hc.left_eq
  have hword := List.length_pos_of_ne_nil (wordBytes_ne_nil (UInt32.ofNat fields.length))
  rw [unitOf, List.length_append] at hlimit
  obtain ⟨header, hread, hempty⟩ := exists_read_unitOf h hc
  cases hsteps with
  | done hend => omega
  | next hmore hstep hrest =>
    cases hread.symm.trans hstep
    cases hrest with
    | done => exact ⟨header, rfl, hempty⟩
    | next hmore' => exact absurd hmore' (Nat.lt_irrefl _)

end UnitHeader

namespace Sections

variable {sections : Sections} {fields : List UInt8} {headers headers' : List UnitHeader}

/-- The sections with one more unit, of which there are only these fields of its header. -/
def withUnit (sections : Sections) (fields : List UInt8) : Sections :=
  { sections with info := sections.info ++ (UnitHeader.unitOf fields).toArray }

theorem partOf_withUnit (sections : Sections) (fields : List UInt8) (position : Nat) :
    (Cursor.place ".debug_info" sections.info position).PartOf
      (.place ".debug_info" (sections.withUnit fields).info position) where
  region := rfl
  position := rfl
  limit := by
    show sections.info.size ≤ (sections.info ++ _).size
    rw [Array.size_append]
    exact Nat.le_add_right _ _
  bytes i hi := (Array.getElem?_append_left hi).symm

@[simp]
theorem readAll_noTypes (bias : UInt32) : UnitHeader.readAll ".debug_types" #[] bias true = .ok [] := rfl

theorem unitHeaders_withUnit (htypes : sections.types = #[]) (hfields : UnitHeader.OfCompilation fields)
    (h : sections.unitHeaders = .ok headers) (h' : (sections.withUnit fields).unitHeaders = .ok headers') :
    ∃ header, headers' = headers ++ [header] ∧ header.IsEmpty := by
  obtain ⟨-, front, hfront, none, hnone, rfl⟩ := unitHeaders_eq_ok_iff.mp h
  obtain ⟨-, all, hall, none', hnone', rfl⟩ := unitHeaders_eq_ok_iff.mp h'
  rw [htypes, readAll_noTypes] at hnone
  rw [show (sections.withUnit fields).types = #[] from htypes, readAll_noTypes] at hnone'
  cases hnone
  cases hnone'
  obtain ⟨more, rfl, hmore⟩ := UnitHeader.steps_further (UnitHeader.steps_of_readAll hfront)
    (sections.partOf_withUnit fields 0) (Nat.zero_le _) (UnitHeader.steps_of_readAll hall)
  have hholds : Cursor.Holds (.place ".debug_info" (sections.withUnit fields).info sections.info.size)
      (UnitHeader.unitOf fields) := by
    have hplace := Cursor.Holds.place ".debug_info" sections.info.toList (UnitHeader.unitOf fields)
    rw [Array.length_toList, ← List.append_toArray, Array.toArray_toList] at hplace
    exact hplace
  obtain ⟨header, rfl, hempty⟩ := UnitHeader.steps_unitOf hfields hholds hmore
  refine ⟨header, ?_, hempty⟩
  rw [List.append_nil, List.append_nil]

/-! ## Entries -/

theorem tablesOf_append (known : List AbbreviationTable) (front back : List UnitHeader) :
    sections.tablesOf known (front ++ back) =
      (sections.tablesOf known front >>= fun tables => sections.tablesOf tables back) := by
  induction front generalizing known with
  | nil => rfl
  | cons header rest ih =>
    rw [List.cons_append, tablesOf, tablesOf]
    split
    · exact ih known
    · rw [bind_assoc]
      exact congrArg _ (funext fun table => ih _)

theorem tablesOf_withUnit (known : List AbbreviationTable) (headers : List UnitHeader) :
    (sections.withUnit fields).tablesOf known headers = sections.tablesOf known headers := by
  induction headers generalizing known with
  | nil => rfl
  | cons header rest ih =>
    rw [tablesOf, tablesOf]
    simp only [ih]
    rfl

theorem exists_more_of_tablesOf {known tables : List AbbreviationTable}
    (h : sections.tablesOf known headers = .ok tables) : ∃ more, tables = known ++ more := by
  induction headers generalizing known with
  | nil =>
    cases h
    exact ⟨[], (List.append_nil _).symm⟩
  | cons header rest ih =>
    rw [tablesOf] at h
    split at h
    · exact ih h
    · obtain ⟨table, -, h⟩ := ok_of_bind h
      obtain ⟨more, rfl⟩ := ih h
      exact ⟨table :: more, by rw [List.append_assoc, List.singleton_append]⟩

variable {tables : List AbbreviationTable} {header : UnitHeader} {entries : List IndexedEntry}

instance (encoding : Encoding) (specs : List AttributeSpec) : Local (skipValues encoding specs) := by
  induction specs with
  | nil => exact inferInstanceAs (Local (pure ()))
  | cons spec rest ih => exact inferInstanceAs (Local (spec.form.skip encoding >>= fun _ => skipValues encoding rest))

instance (table : AbbreviationTable) (encoding : Encoding) (bias : UInt32) :
    Local (readIndexed table encoding bias) := by
  unfold readIndexed
  infer_instance

theorem entriesOfUnit_of_noTypes (htypes : header.inTypes = false) : sections.entriesOfUnit tables header = .ok entries ↔
    ∃ unit table, (Cursor.place ".debug_info" sections.info header.firstEntry.toNat).truncated?
        (header.stop.toNat - header.firstEntry.toNat) = some unit ∧
      (tables.find? fun table => table.offset = header.abbreviations) = some table ∧
        (Decoded.ofCursor (readIndexed table header.encoding 0) unit).all = .ok entries := by
  have hsection : sections.unitSection header.inTypes = (".debug_info", sections.info, 0) := by
    rw [unitSection, htypes]
    rfl
  simpa only [UInt32.sub_zero] using entriesOfUnit_eq_ok_iff hsection

theorem entriesOfUnit_withUnit (htypes : header.inTypes = false) (more : List AbbreviationTable)
    (h : sections.entriesOfUnit tables header = .ok entries) :
    (sections.withUnit fields).entriesOfUnit (tables ++ more) header = .ok entries := by
  obtain ⟨unit, table, htruncated, hfound, h⟩ := (entriesOfUnit_of_noTypes htypes).mp h
  obtain ⟨unit', htruncated', hagrees⟩ := (sections.partOf_withUnit fields _).truncated htruncated
  refine (entriesOfUnit_of_noTypes htypes).mpr ⟨unit', table, htruncated', ?_, ?_⟩
  · rw [List.find?_append, hfound]
    rfl
  · rw [← Read.ofCursor_congr hagrees]
    exact h

theorem entriesOf_withUnit (htypes : ∀ header ∈ headers, header.inTypes = false) (more : List AbbreviationTable)
    (h : sections.entriesOf tables headers = .ok entries) :
    (sections.withUnit fields).entriesOf (tables ++ more) headers = .ok entries := by
  induction headers generalizing entries with
  | nil => exact h
  | cons header rest ih =>
    obtain ⟨hheader, hrest⟩ := List.forall_mem_cons.mp htypes
    obtain ⟨front, hfront, back, hback, rfl⟩ := entriesOf_cons_eq_ok_iff.mp h
    exact entriesOf_cons_eq_ok_iff.mpr
      ⟨front, entriesOfUnit_withUnit hheader more hfront, back, ih hrest hback, rfl⟩

theorem entriesOf_append {front back : List UnitHeader} (h : sections.entriesOf tables (front ++ back) = .ok entries) :
    ∃ first last, sections.entriesOf tables front = .ok first ∧ sections.entriesOf tables back = .ok last ∧
      entries = first ++ last := by
  induction front generalizing entries with
  | nil => exact ⟨[], entries, rfl, h, rfl⟩
  | cons header rest ih =>
    obtain ⟨own, hown, others, hothers, rfl⟩ := entriesOf_cons_eq_ok_iff.mp h
    obtain ⟨first, last, hfirst, hlast, rfl⟩ := ih hothers
    exact ⟨own ++ first, last, entriesOf_cons_eq_ok_iff.mpr ⟨own, hown, first, hfirst, rfl⟩, hlast,
      (List.append_assoc _ _ _).symm⟩

theorem entriesOfUnit_isEmpty (hempty : header.IsEmpty) (h : sections.entriesOfUnit tables header = .ok entries) :
    entries = [] := by
  obtain ⟨unit, table, htruncated, -, h⟩ := (entriesOfUnit_of_noTypes hempty.inTypes_eq).mp h
  obtain ⟨-, -, hposition, hlimit, -⟩ := Cursor.eq_of_truncated? htruncated
  rw [hempty.stop_eq] at hlimit
  have hleft : unit.left = 0 := by
    unfold Cursor.left
    omega
  rw [Decoded.ofCursor, hleft] at h
  exact (Except.ok.inj h).symm

/-! ## Attributes -/

theorem readInUnit_withUnit {α : Type} (htypes : header.inTypes = false)
    (hstop : header.stop.toNat ≤ sections.info.size) (offset : UInt32) (values : Read α) :
    (sections.withUnit fields).readInUnit header offset values = sections.readInUnit header offset values := by
  have hbytes : (sections.withUnit fields).info.extract 0 header.stop.toNat =
      sections.info.extract 0 header.stop.toNat := by
    refine extract_congr (Nat.le_trans hstop (sections.partOf_withUnit fields 0).limit) hstop fun i _ hi => ?_
    exact Array.getElem?_append_left (Nat.lt_of_lt_of_le hi hstop)
  unfold readInUnit unitSection
  simp only [htypes, Bool.false_eq_true, if_false, UInt32.sub_zero, hbytes]

end Sections

/-- A unit of which no more is known than its header. -/
def UnitSummary.ofHeader (header : UnitHeader) : UnitSummary := { header, tag := .null, bases := initialBases header }

theorem UnitSummary.build_isEmpty {index : EntryIndex} {header : UnitHeader} (h : header.IsEmpty) :
    build index header = .ok (ofHeader header) := by
  unfold build
  simp only [if_pos (UInt32.le_of_eq h.stop_eq)]
  rfl

namespace DebugInfo

variable {info info' : DebugInfo} {sections : Sections} {fields : List UInt8} {offset : UInt32}

theorem attributesWith_eq (hbuild : build sections = .ok info) (hspace : sections.space.size < 2 ^ 32)
    {header : UnitHeader} (hmem : header ∈ info.headers) (hcontains : header.contains offset = true) {position : Nat}
    {a : Abbreviation} (hlocate : info.locate offset = .ok (position, a)) :
    info.attributesWith header.encoding offset =
      sections.readInUnit header offset (EntryIndex.readValues header.encoding a.attributes) := by
  obtain ⟨rfl, hheaders, -⟩ := entries_of_build hbuild
  obtain ⟨htile, -⟩ := Sections.unitHeaders_tile hheaders hspace
  obtain ⟨unit, hunit⟩ := exists_readInUnit hbuild hspace (Array.mem_of_getElem? (entry_of_locate hlocate)) rfl
  obtain ⟨own, hown, rfl⟩ := unitAt_of_contains htile hmem hcontains
  cases hunit.unitAt_eq.symm.trans hown
  rw [← hunit.attributes_eq, attributes, hown]
  rfl

theorem space_lt_of_build (htypes : sections.types = #[]) (h : build sections = .ok info) :
    sections.space.size < 2 ^ 32 := by
  obtain ⟨hheaders, -⟩ := parts_of_build h
  obtain ⟨hsize, -⟩ := Sections.unitHeaders_eq_ok_iff.mp hheaders
  rw [Sections.size_space, htypes, Array.size_empty]
  omega

theorem inTypes_of_noTypes (htypes : sections.types = #[]) (hbuild : build sections = .ok info) :
    ∀ header ∈ info.headers, header.inTypes = false ∧ header.offset < header.firstEntry ∧
      header.stop.toNat ≤ sections.info.size := by
  obtain ⟨hheaders, -⟩ := parts_of_build hbuild
  obtain ⟨htile, hholds⟩ := Sections.unitHeaders_tile hheaders (space_lt_of_build htypes hbuild)
  intro header hmem
  have hheader := hholds header hmem
  have hbounds := hheader.bounds
  have hstop := (htile.bounds.2 header hmem).2
  rw [Sections.size_space, htypes, Array.size_empty, Nat.add_zero] at hstop
  refine ⟨?_, hheader.offset_lt, hstop⟩
  by_contra hin
  rw [if_pos ((Bool.not_eq_false _).mp hin)] at hbounds
  have hfirst := UInt32.lt_iff_toNat_lt.mp hheader.offset_lt
  have hle := UInt32.le_iff_toNat_le.mp hheader.firstEntry_le
  omega

theorem index_withUnit {headers : List UnitHeader} {header : UnitHeader} {index index' : EntryIndex}
    (htypes : ∀ header ∈ headers, header.inTypes = false) (hempty : header.IsEmpty)
    (h : EntryIndex.build sections headers = .ok index)
    (h' : EntryIndex.build (sections.withUnit fields) (headers ++ [header]) = .ok index') :
    index' = { index with sections := sections.withUnit fields } := by
  obtain ⟨tables, htables, entries, hentries, rfl⟩ := EntryIndex.build_eq_ok_iff.mp h
  obtain ⟨tables', htables', entries', hentries', rfl⟩ := EntryIndex.build_eq_ok_iff.mp h'
  rw [Sections.tablesOf_withUnit, Sections.tablesOf_append, htables] at htables'
  obtain ⟨more, rfl⟩ := Sections.exists_more_of_tablesOf htables'
  obtain ⟨front, back, hfront, hback, rfl⟩ := Sections.entriesOf_append hentries'
  cases hfront.symm.trans (Sections.entriesOf_withUnit htypes more hentries)
  obtain ⟨own, hown, others, hothers, rfl⟩ := Sections.entriesOf_cons_eq_ok_iff.mp hback
  cases Sections.entriesOfUnit_isEmpty hempty hown
  cases hothers
  rw [List.append_nil, List.append_nil]

theorem buildUnit_withUnit (htypes : sections.types = #[]) (hbuild : build sections = .ok info)
    (hbuild' : build (sections.withUnit fields) = .ok info')
    (hindex : info'.toEntryIndex = { info.toEntryIndex with sections := sections.withUnit fields })
    {header : UnitHeader} (hmem : header ∈ info.headers) (hmem' : header ∈ info'.headers) :
    UnitSummary.build info'.toEntryIndex header = UnitSummary.build info.toEntryIndex header := by
  obtain ⟨hin, hfirst, hstop⟩ := inTypes_of_noTypes htypes hbuild header hmem
  obtain ⟨hsections, -⟩ := entries_of_build hbuild
  have hlocate : info'.locate header.firstEntry = info.locate header.firstEntry := by
    rw [hindex]
    rfl
  unfold UnitSummary.build
  by_cases hend : header.stop ≤ header.firstEntry
  · simp only [if_pos hend]
  simp only [if_neg hend, hlocate]
  cases hfound : info.locate header.firstEntry with
  | error e => rfl
  | ok found =>
    have hcontains : header.contains header.firstEntry = true := by
      simp only [UnitHeader.contains, Bool.and_eq_true, decide_eq_true_eq]
      exact ⟨UInt32.le_of_lt hfirst, UInt32.not_le.mp hend⟩
    have hvalues := attributesWith_eq hbuild (space_lt_of_build htypes hbuild) hmem hcontains hfound
    have hvalues' := attributesWith_eq hbuild' (space_lt_of_build htypes hbuild') hmem' hcontains
      (hlocate.trans hfound)
    rw [Sections.readInUnit_withUnit hin hstop, ← hvalues] at hvalues'
    simp only [hvalues']
    rw [hindex, hsections]
    rfl

/-- What is known of an image is what is known of it without its last unit, and the header of that. -/
theorem build_withUnit (htypes : sections.types = #[]) (hfields : UnitHeader.OfCompilation fields)
    (h : build sections = .ok info) (h' : build (sections.withUnit fields) = .ok info') :
    ∃ header : UnitHeader, header.IsEmpty ∧ header.firstEntry.toNat = (sections.withUnit fields).info.size ∧
      info' = { info with sections := sections.withUnit fields, units := info.units.push (.ofHeader header) } := by
  obtain ⟨hheaders, hindex, hunits, hframes, hsignatures⟩ := parts_of_build h
  obtain ⟨hheaders', hindex', hunits', hframes', hsignatures'⟩ := parts_of_build h'
  obtain ⟨header, hmore, hempty⟩ := Sections.unitHeaders_withUnit htypes hfields hheaders hheaders'
  have htypes' : (sections.withUnit fields).types = #[] := htypes
  obtain ⟨htile, -⟩ := Sections.unitHeaders_tile hheaders' (space_lt_of_build htypes' h')
  rw [hmore] at htile hindex' hunits'
  have hindex := index_withUnit (fun header hmem => (inTypes_of_noTypes htypes h header hmem).1) hempty hindex hindex'
  have hsame : info.headers.mapM (UnitSummary.build info'.toEntryIndex) = .ok info.units.toList := by
    rw [← hunits]
    refine mapM_congr fun header hmem => ?_
    refine buildUnit_withUnit htypes h h' hindex hmem ?_
    rw [hmore]
    exact List.mem_append_left _ hmem
  rw [List.mapM_append, hsame, List.mapM_cons, UnitSummary.build_isEmpty hempty] at hunits'
  have hunits : info'.units.toList = info.units.toList ++ [.ofHeader header] := (Except.ok.inj hunits').symm
  have hnone : signatureOf (.ofHeader header) = none := by
    unfold signatureOf
    rw [show (UnitSummary.ofHeader header).header.signature = none from hempty.signature_eq]
    rfl
  refine ⟨header, hempty, ?_, ?_⟩
  · rw [← hempty.stop_eq, htile.stop_eq, Sections.size_space]
    show (sections.withUnit fields).info.size + sections.types.size = _
    rw [htypes]
    rfl
  · rw [hunits, List.filterMap_append, List.filterMap_cons, hnone, List.filterMap_nil, List.append_nil,
      ← hsignatures] at hsignatures'
    have hframes := Except.ok.inj (hframes.symm.trans hframes')
    have hunits : info'.units = info.units.push (.ofHeader header) := by
      rw [← Array.toList_inj, hunits, Array.toList_push]
    rw [← hindex, hframes, ← hunits, ← hsignatures']

end DebugInfo

end FirmwareDebug
