import FirmwareDebug.Proofs.Steady
import FirmwareDebug.Proofs.TreeInUnit

/-!
# One attribute and all of them

An attribute is looked for by passing over what is written in front of it, all attributes are read one after the other.
Neither stops at the end of the unit; but what was passed over when the entry was indexed is all that they read.
-/

namespace FirmwareDebug

open Read EntryIndex

variable {encoding : Encoding} {specs : List AttributeSpec} {c d next : Cursor}

/-! ## The first attribute of a name -/

theorem inside_of_unsigned {code : UInt64} (h : unsigned c = .ok code next) : next.position ≤ next.limit := by
  obtain ⟨hahead, hleft⟩ := Form.left_lt_of_unsigned h
  unfold Cursor.left at hleft
  exact hahead.le_limit (by omega)

@[simp]
theorem readValues_cons_eq_ok_iff {spec : AttributeSpec} {rest : List AttributeSpec} {values : List Attribute} :
    readValues encoding (spec :: rest) c = .ok values next ↔
      ∃ value middle, spec.form.read encoding spec.implicit c = .ok value middle ∧
        ∃ others, readValues encoding rest middle = .ok others next ∧ ⟨spec.name, value⟩ :: others = values := by
  simp only [readValues, run_bind_eq_ok_iff, run_pure_eq_ok_iff]
  grind

theorem names_of_readValues {values : List Attribute} (h : readValues encoding specs c = .ok values next) :
    values.map Attribute.name = specs.map AttributeSpec.name := by
  induction specs generalizing c values with
  | nil =>
    cases h
    rfl
  | cons spec rest ih =>
    obtain ⟨value, middle, -, values, hrest, rfl⟩ := readValues_cons_eq_ok_iff.mp h
    rw [List.map_cons, List.map_cons, ih hrest]

theorem readNamed_of_readValues (hsize : encoding.addressSize = 4) (hinside : c.position ≤ c.limit)
    {values : List Attribute} (h : readValues encoding specs c = .ok values next) (name : AttributeName) :
    ∃ last, readNamed encoding name specs c =
      .ok ((values.find? fun a => a.name = name).map Attribute.value) last := by
  induction specs generalizing c values with
  | nil =>
    cases h
    exact ⟨_, rfl⟩
  | cons spec rest ih =>
    obtain ⟨value, middle, hvalue, values, hrest, rfl⟩ := readValues_cons_eq_ok_iff.mp h
    unfold readNamed
    by_cases hname : spec.name = name
    · rw [if_pos hname, run_bind_of_ok hvalue, List.find?_cons_of_pos (by simpa using hname)]
      exact ⟨_, rfl⟩
    · have hskip := Form.skip_of_read hsize (Form.not_emptyBehindEnd hinside _) hvalue
      have hmiddle := (Form.takes_skip spec.form c () middle hskip).1.le_limit hinside
      rw [if_neg hname, run_bind_of_ok hskip, List.find?_cons_of_neg (by simpa using hname)]
      exact ih hmiddle hrest

/-! ## Reading with an end behind the entry, or further on -/

theorem Form.wideReference_further {form : Form} {offset : UInt64} (h : form.WideReference c offset)
    (hpart : c.PartOf d) : form.WideReference d offset := by
  induction h generalizing d with
  | ref8 hread hwide =>
    obtain ⟨last, hread', -⟩ := Steady.again hpart hread
    exact .ref8 hread' hwide
  | refUdata hread hwide =>
    obtain ⟨last, hread', -⟩ := Steady.again hpart hread
    exact .refUdata hread' hwide
  | indirect hcode hfits _ ih =>
    obtain ⟨middle, hcode', hpart'⟩ := Steady.again hpart hcode
    exact .indirect hcode' hfits (ih hpart')

/-- A value that can be passed over is read alike further on, also if it is one that cannot be read. -/
theorem Form.read_further (hsize : encoding.addressSize = 4) (implicit : Option Int64) {form : Form}
    (hskip : form.skip encoding c = .ok () next) (hpart : c.PartOf d) :
    EndAlike Cursor.PartOf (fun _ => True) (form.read encoding implicit c) (form.read encoding implicit d) := by
  obtain ⟨hread, hfault⟩ := Form.read_of_skip hsize implicit hskip
  by_cases hwide : ∃ offset, form.WideReference c offset
  · obtain ⟨offset, hwide⟩ := hwide
    obtain ⟨last, hskip', hpart'⟩ := Steady.again hpart hskip
    rw [hfault offset hwide, (Form.read_of_skip hsize implicit hskip').2 offset (Form.wideReference_further hwide hpart)]
    refine ⟨⟨?_, trivial⟩, hpart'⟩
    rw [Cursor.fault, Cursor.fault, hpart'.region, hpart'.position]
  · obtain ⟨value, hvalue⟩ := hread.mpr (not_exists.mp hwide)
    obtain ⟨last, hvalue', hpart'⟩ := Steady.again hpart hvalue
    rw [hvalue, hvalue']
    exact ⟨rfl, hpart'⟩

theorem Form.read_bind_further {α : Type} (hsize : encoding.addressSize = 4) (hinside : c.position ≤ c.limit)
    {implicit : Option Int64} {form : Form} (hskip : form.skip encoding c = .ok () next) (hpart : c.PartOf d)
    {f : AttributeValue → Read α}
    (hf : ∀ value d', next.PartOf d' → EndAlike Cursor.PartOf (fun _ => True) (f value next) (f value d')) :
    EndAlike Cursor.PartOf (fun _ => True) ((form.read encoding implicit >>= f) c)
      ((form.read encoding implicit >>= f) d) := by
  refine (Form.read_further hsize implicit hskip hpart).bind fun value after d' hvalue hpart' => ?_
  cases hskip.symm.trans (Form.skip_of_read hsize (Form.not_emptyBehindEnd hinside _) hvalue)
  exact hf value d' hpart'

theorem readValues_further (hsize : encoding.addressSize = 4) (hinside : c.position ≤ c.limit)
    (hskip : skipValues encoding specs c = .ok () next) (hpart : c.PartOf d) :
    EndAlike Cursor.PartOf (fun _ => True) (readValues encoding specs c) (readValues encoding specs d) := by
  induction specs generalizing c d with
  | nil => exact ⟨rfl, hpart⟩
  | cons spec rest ih =>
    obtain ⟨_, middle, hfirst, hrest⟩ := ran_of_bind hskip
    have hmiddle := (Form.takes_skip spec.form c () middle hfirst).1.le_limit hinside
    refine Form.read_bind_further hsize hinside hfirst hpart fun value d' hpart' => ?_
    exact (ih hmiddle hrest hpart').bind fun values after d'' _ hpart'' => ⟨rfl, hpart''⟩

theorem readNamed_further (hsize : encoding.addressSize = 4) (hinside : c.position ≤ c.limit) (name : AttributeName)
    (hskip : skipValues encoding specs c = .ok () next) (hpart : c.PartOf d) :
    EndAlike Cursor.PartOf (fun _ => True) (readNamed encoding name specs c) (readNamed encoding name specs d) := by
  induction specs generalizing c d with
  | nil => exact ⟨rfl, hpart⟩
  | cons spec rest ih =>
    obtain ⟨_, middle, hfirst, hrest⟩ := ran_of_bind hskip
    have hmiddle := (Form.takes_skip spec.form c () middle hfirst).1.le_limit hinside
    unfold readNamed
    by_cases hname : spec.name = name
    · simp only [if_pos hname]
      exact Form.read_bind_further hsize hinside hfirst hpart fun value d' hpart' => ⟨rfl, hpart'⟩
    · obtain ⟨middle', hfirst', hpart'⟩ := Steady.again hpart hfirst
      simp only [if_neg hname, run_bind, hfirst, hfirst']
      exact ih hmiddle hrest hpart'

/-! ## Where an entry was indexed -/

theorem UnitHeader.addressSize_of_readFields {bias : UInt32} {inTypes : Bool} {start stop : Nat} {header : UnitHeader}
    (h : UnitHeader.readFields bias inTypes start stop c = .ok header next) : header.addressSize = 4 := by
  simp only [UnitHeader.readFields, run_bind_eq_ok_iff, run_guard_eq_ok_iff, run_pure_eq_ok_iff] at h
  obtain ⟨_, _, -, -, _, _, -, hsize, _, _, -, _, _, -, rfl, -⟩ := h
  exact Decidable.not_not.mp hsize

theorem UnitHeader.addressSize_of_read {bias : UInt32} {inTypes : Bool} {header : UnitHeader}
    (h : UnitHeader.read bias inTypes c = .ok header next) : header.addressSize = 4 := by
  obtain ⟨_, _, _, -, -, -, heval, -⟩ := UnitHeader.read_eq_ok_iff.mp h
  obtain ⟨last, hfields⟩ := eval_eq_ok_iff.mp heval
  exact UnitHeader.addressSize_of_readFields hfields

theorem Steps.exists_step {α : Type} {step : Read α} {items : List α} {P : Cursor → Prop} (h : Steps step c items)
    (hkeeps : ∀ {c next a}, P c → step c = .ok a next → P next) (hc : P c) :
    ∀ a ∈ items, ∃ c' next, P c' ∧ c'.position < c'.limit ∧ step c' = .ok a next := by
  induction h with
  | done => exact List.forall_mem_nil _
  | next hmore hstep _ ih => exact List.forall_mem_cons.mpr ⟨⟨_, _, hc, hmore, hstep⟩, ih (hkeeps hc hstep)⟩

theorem UnitHeader.addressSize_of_readAll {region : String} {bytes : Bytes} {bias : UInt32} {inTypes : Bool}
    {headers : List UnitHeader} (h : UnitHeader.readAll region bytes bias inTypes = .ok headers) :
    ∀ header ∈ headers, header.addressSize = 4 := by
  intro header hmem
  obtain ⟨c, next, -, -, hread⟩ :=
    (UnitHeader.steps_of_readAll h).exists_step (P := fun _ => True) (fun _ _ => trivial) trivial header hmem
  exact UnitHeader.addressSize_of_read hread

theorem Sections.addressSize_of_unitHeaders {sections : Sections} {headers : List UnitHeader}
    (h : sections.unitHeaders = .ok headers) : ∀ header ∈ headers, header.addressSize = 4 := by
  obtain ⟨-, info, hinfo, types, htypes, rfl⟩ := Sections.unitHeaders_eq_ok_iff.mp h
  intro header hmem
  rcases List.mem_append.mp hmem with hmem | hmem
  · exact UnitHeader.addressSize_of_readAll hinfo header hmem
  · exact UnitHeader.addressSize_of_readAll htypes header hmem

theorem skipValues_of_readIndexed {table : AbbreviationTable} {bias : UInt32} {e : IndexedEntry} {a : Abbreviation}
    (h : readIndexed table encoding bias c = .ok e next) (ha : e.abbreviation = some a) :
    ∃ code middle, unsigned c = .ok code middle ∧ skipValues encoding a.attributes middle = .ok () next := by
  simp only [readIndexed, run_bind_eq_ok_iff, run_position_eq_ok_iff] at h
  obtain ⟨_, _, ⟨rfl, rfl⟩, code, middle, hcode, h⟩ := h
  split at h
  · cases h
    cases ha
  · simp only [run_bind_eq_ok_iff, run_liftExcept_eq_ok_iff, run_pure_eq_ok_iff] at h
    obtain ⟨found, _, ⟨-, rfl⟩, _, _, hskip, rfl, rfl⟩ := h
    cases ha
    exact ⟨code, _, hcode, hskip⟩

namespace Sections

variable {sections : Sections} {tables : List AbbreviationTable} {header : UnitHeader} {entries : List IndexedEntry}
  {e : IndexedEntry}

theorem exists_unit_of_entriesOf {headers : List UnitHeader} (h : sections.entriesOf tables headers = .ok entries)
    (he : e ∈ entries) : ∃ header ∈ headers, ∃ part, sections.entriesOfUnit tables header = .ok part ∧ e ∈ part := by
  induction headers generalizing entries with
  | nil =>
    cases h
    cases he
  | cons header rest ih =>
    obtain ⟨front, hfront, back, hback, rfl⟩ := Sections.entriesOf_cons_eq_ok_iff.mp h
    rcases List.mem_append.mp he with he | he
    · exact ⟨header, .head _, front, hfront, he⟩
    · obtain ⟨other, hmem, part, hpart⟩ := ih hback he
      exact ⟨other, .tail _ hmem, part, hpart⟩

/-- The cursor is behind a unit's header in the unit's section, and ends where the unit does. -/
structure InUnit (header : UnitHeader) (region : String) (bytes : Bytes) (bias : UInt32) (c : Cursor) : Prop where
  region : c.region = region
  bytes : c.bytes = bytes
  limit : c.limit = (header.stop - bias).toNat
  behind : (header.firstEntry - bias).toNat ≤ c.position

variable {region : String} {bytes : Bytes} {bias : UInt32}

theorem exists_cursor_of_entriesOfUnit (hsection : sections.unitSection header.inTypes = (region, bytes, bias))
    (hstop : (header.firstEntry - bias).toNat ≤ (header.stop - bias).toNat)
    (h : sections.entriesOfUnit tables header = .ok entries) (he : e ∈ entries) :
    ∃ table c next, InUnit header region bytes bias c ∧ c.position < c.limit ∧
      readIndexed table header.encoding bias c = .ok e next := by
  obtain ⟨unit, table, htruncated, -, h⟩ := (entriesOfUnit_eq_ok_iff hsection).mp h
  obtain ⟨hregion, hbytes, hposition, hlimit, -⟩ := Cursor.eq_of_truncated? htruncated
  have hsteps : Steps (readIndexed table header.encoding bias) unit entries :=
    steps_of_ofCursor (fun c e after hread =>
      ⟨(readIndexed_entry hread).1.limit_eq, readIndexed_position_lt hread⟩) h
  have hbegun : InUnit header region bytes bias unit := by
    refine ⟨hregion, hbytes, ?_, Nat.le_of_eq hposition.symm⟩
    rw [hlimit]
    exact Nat.add_sub_of_le hstop
  refine ⟨table, hsteps.exists_step (P := InUnit header region bytes bias) (fun hc hread => ?_) hbegun e he⟩
  have hahead := (readIndexed_entry hread).1
  have hbehind := hahead.position_le
  obtain ⟨count, rfl, -⟩ := hahead
  exact ⟨hc.region, hc.bytes, hc.limit, Nat.le_trans hc.behind hbehind⟩

theorem InUnit.partOf {c : Cursor} (hc : InUnit header region bytes bias c) :
    c.PartOf (.place region (bytes.extract 0 (header.stop - bias).toNat) c.position) ∧
      (Cursor.place region (bytes.extract 0 (header.stop - bias).toNat) c.position).PartOf
        (.place region bytes c.position) := by
  have hle := c.limit_le
  rw [hc.bytes, hc.limit] at hle
  have hsize : (bytes.extract 0 (header.stop - bias).toNat).size = (header.stop - bias).toNat := by
    rw [Array.size_extract]
    omega
  have hbytes : ∀ i < (header.stop - bias).toNat, (bytes.extract 0 (header.stop - bias).toNat)[i]? = bytes[i]? := by
    intro i hi
    rw [Array.getElem?_extract, if_pos (by omega), Nat.zero_add]
  refine ⟨⟨hc.region, rfl, ?_, fun i hi => ?_⟩, ⟨rfl, rfl, ?_, fun i hi => hbytes i ?_⟩⟩
  · exact Nat.le_of_eq (hc.limit.trans hsize.symm)
  · rw [hc.bytes]
    exact (hbytes i (by rwa [← hc.limit])).symm
  · exact Nat.le_of_eq hsize |>.trans hle
  · exact Nat.lt_of_lt_of_eq hi hsize

theorem cursorAt_of_inUnit (hholds : sections.Holds header) (hspace : sections.space.size < 2 ^ 32)
    (hsection : sections.unitSection header.inTypes = (region, bytes, bias)) {c : Cursor}
    (hc : InUnit header region bytes bias c) (hbefore : c.position < c.limit) {offset : UInt32}
    (hoffset : offset = UInt32.ofNat c.position + bias) :
    (offset - bias).toNat = c.position ∧ header.contains offset = true ∧
      sections.cursorAt offset = .place region bytes c.position := by
  obtain ⟨-, hbias⟩ := unitBytes_eq hholds hspace hsection
  have hfirst := UInt32.toNat_sub_of_le _ _ hbias
  have hstop := UInt32.toNat_sub_of_le _ _ (UInt32.le_trans hbias hholds.firstEntry_le)
  have hlimit := hc.limit
  have hbehind := hc.behind
  have hheader := UInt32.lt_iff_toNat_lt.mp hholds.offset_lt
  have hbounds := hholds.bounds
  rw [UInt32.le_iff_toNat_le] at hbias
  have hlt := header.stop.toNat_lt
  have htoNat := UnitHeader.toNat_ofNat_add c.position bias (by omega)
  rw [← hoffset] at htoNat
  have hle : bias ≤ offset := UInt32.le_iff_toNat_le.mpr (by omega)
  have hposition := UInt32.toNat_sub_of_le _ _ hle
  refine ⟨by omega, ?_, ?_⟩
  · simp only [UnitHeader.contains, Bool.and_eq_true, decide_eq_true_eq, UInt32.le_iff_toNat_le,
      UInt32.lt_iff_toNat_lt]
    omega
  · rw [size_space] at hspace
    unfold unitSection at hsection
    unfold cursorAt
    split at hsection
    · rename_i hin
      cases hsection
      rw [UInt32.toNat_ofNat_of_lt' (by rw [UInt32.size]; omega)] at htoNat
      rw [if_neg (by omega), htoNat, Nat.add_sub_cancel]
    · rename_i hin
      cases hsection
      rw [if_neg hin] at hbounds
      have hzero : (0 : UInt32).toNat = 0 := rfl
      rw [if_pos (by omega), show offset.toNat = c.position by omega]

/-- What is read at an offset if the section ends where the unit does. -/
def readInUnit {α : Type} (sections : Sections) (header : UnitHeader) (offset : UInt32) (values : Read α) :
    Except Fault α :=
  let (region, bytes, bias) := sections.unitSection header.inTypes
  (do discard unsigned; values : Read α).eval
    (.place region (bytes.extract 0 (header.stop - bias).toNat) (offset - bias).toNat)

end Sections

/-! ## Attributes of entries -/

instance : Steady (skipValues encoding specs) := by
  induction specs with
  | nil => exact inferInstanceAs (Steady (pure ()))
  | cons spec rest ih => exact inferInstanceAs (Steady (spec.form.skip encoding >>= fun _ => skipValues encoding rest))

theorem eval_further {α : Type} {values : Read α} {code : UInt64} {middle : Cursor} (hpart : c.PartOf d)
    (hcode : unsigned c = .ok code middle)
    (hvalues : ∀ d', middle.PartOf d' → EndAlike Cursor.PartOf (fun _ => True) (values middle) (values d')) :
    (do discard unsigned; values : Read α).eval c = (do discard unsigned; values : Read α).eval d := by
  obtain ⟨middle', hcode', hpart'⟩ := Steady.again hpart hcode
  have hend : EndAlike Cursor.PartOf (fun _ => True) ((do discard unsigned; values : Read α) c)
      ((do discard unsigned; values : Read α) d) := by
    simp only [run_bind, run_discard, hcode, hcode']
    exact hvalues middle' hpart'
  exact hend.eval_eq

namespace DebugInfo

variable {info : DebugInfo} {sections : Sections} {offset : UInt32}

theorem entries_of_build (h : build sections = .ok info) : info.sections = sections ∧
    sections.unitHeaders = .ok info.headers ∧ ∃ tables, sections.entriesOf tables info.headers = .ok info.entries.toList := by
  obtain ⟨hheaders, hindex, -⟩ := parts_of_build h
  obtain ⟨tables, -, entries, hentries, hindex⟩ := EntryIndex.build_eq_ok_iff.mp hindex
  rw [← hindex]
  exact ⟨rfl, hheaders, tables, hentries⟩

theorem addressSize_of_unitAt (hbuild : build sections = .ok info) {unit : UnitSummary} (h : info.unitAt offset = .ok unit) :
    unit.header.encoding.addressSize = 4 := by
  obtain ⟨-, hheaders, -⟩ := entries_of_build hbuild
  obtain ⟨number, -, hunit⟩ := unit_of_unitAt h
  have hmem := Array.mem_toList_iff.mpr (Array.mem_of_getElem? hunit)
  exact Sections.addressSize_of_unitHeaders hheaders _ (List.mem_map_of_mem hmem)

theorem find?_of_not_has {values : List Attribute} {a : Abbreviation}
    (hnames : values.map Attribute.name = a.attributes.map AttributeSpec.name) {name : AttributeName}
    (h : a.has name = false) : values.find? (fun v => v.name = name) = none := by
  rw [List.find?_eq_none]
  intro v hv hname
  have hmem := List.mem_map_of_mem (f := Attribute.name) hv
  rw [hnames] at hmem
  obtain ⟨spec, hspec, hsame⟩ := List.mem_map.mp hmem
  rw [Abbreviation.has, List.any_eq_false] at h
  refine h spec hspec ?_
  simpa [hsame] using hname

theorem attributes_eq {a : Abbreviation} {unit : UnitSummary} (ha : info.abbreviation offset = .ok a)
    (hunit : info.unitAt offset = .ok unit) :
    info.attributes offset = info.readAt offset (readValues unit.header.encoding a.attributes) := by
  simp only [attributes, attributesWith, ha, hunit, bind, Except.bind]

theorem attribute?_eq {a : Abbreviation} {unit : UnitSummary} (ha : info.abbreviation offset = .ok a)
    (hunit : info.unitAt offset = .ok unit) (name : AttributeName) :
    info.attribute? offset name = if a.has name then
      info.readAt offset (readNamed unit.header.encoding name a.attributes) else .ok none := by
  cases hhas : a.has name <;> simp [attribute?, ha, hunit, hhas, bind, Except.bind, pure, Except.pure]

theorem attribute?_of_attributes (hbuild : build sections = .ok info) {values : List Attribute}
    (h : info.attributes offset = .ok values) (name : AttributeName) :
    info.attribute? offset name = .ok ((values.find? fun v => v.name = name).map Attribute.value) := by
  simp only [attributes, attributesWith, EntryIndex.readAt, bind_eq_ok_iff, eval_eq_ok_iff, run_bind_eq_ok_iff] at h
  obtain ⟨unit, hunit, a, ha, next, _, middle, hcode, hread⟩ := h
  have hsize := addressSize_of_unitAt hbuild hunit
  have hinside : middle.position ≤ middle.limit := by
    rw [run_discard] at hcode
    split at hcode
    · rename_i code after hunsigned
      cases hcode
      exact inside_of_unsigned hunsigned
    · cases hcode
  rw [attribute?_eq ha hunit]
  cases hhas : a.has name with
  | false =>
    rw [find?_of_not_has (names_of_readValues hread) hhas]
    rfl
  | true =>
    obtain ⟨last, hnamed⟩ := readNamed_of_readValues hsize hinside hread name
    rw [if_pos rfl, EntryIndex.readAt, Read.eval, run_bind_of_ok hcode]
    simp only [hnamed]

/-- What is read for the entry at an offset is written in the unit that the offset lies in. -/
structure ReadInUnit (info : DebugInfo) (unit : UnitSummary) (a : Abbreviation) (offset : UInt32) : Prop where
  unitAt_eq : info.unitAt offset = .ok unit
  contains : unit.header.contains offset = true
  attributes_eq : info.attributes offset =
    info.sections.readInUnit unit.header offset (readValues unit.header.encoding a.attributes)
  attribute?_eq : ∀ name, info.attribute? offset name = if a.has name then
    info.sections.readInUnit unit.header offset (readNamed unit.header.encoding name a.attributes) else .ok none

theorem unitAt_of_contains {start stop : Nat} (htile : UnitHeader.Tile start stop info.headers) {header : UnitHeader}
    (hmem : header ∈ info.headers) (h : header.contains offset = true) :
    ∃ unit, info.unitAt offset = .ok unit ∧ unit.header = header := by
  obtain ⟨unit, hunit, rfl⟩ := List.mem_map.mp hmem
  obtain ⟨number, hnumber⟩ := Array.mem_iff_getElem?.mp (Array.mem_toList_iff.mp hunit)
  exact ⟨unit, (unitAt_eq_ok htile).mpr ⟨number, hnumber, h⟩, rfl⟩

theorem exists_readInUnit (hbuild : build sections = .ok info) (hspace : sections.space.size < 2 ^ 32) {e : IndexedEntry}
    (he : e ∈ info.entries) {a : Abbreviation} (ha : e.abbreviation = some a) :
    ∃ unit, info.ReadInUnit unit a e.offset := by
  obtain ⟨rfl, hheaders, tables, hentries⟩ := entries_of_build hbuild
  obtain ⟨htile, hholds⟩ := Sections.unitHeaders_tile hheaders hspace
  obtain ⟨header, hmem, part, hpart, hepart⟩ :=
    Sections.exists_unit_of_entriesOf hentries (Array.mem_toList_iff.mpr he)
  have hsize := Sections.addressSize_of_unitHeaders hheaders header hmem
  obtain ⟨⟨region, bytes, bias⟩, hsection⟩ : ∃ s, info.sections.unitSection header.inTypes = s := ⟨_, rfl⟩
  have hheader := hholds header hmem
  obtain ⟨-, hbias⟩ := Sections.unitBytes_eq hheader hspace hsection
  have hstop : (header.firstEntry - bias).toNat ≤ (header.stop - bias).toNat := by
    rw [UInt32.toNat_sub_of_le _ _ hbias, UInt32.toNat_sub_of_le _ _ (UInt32.le_trans hbias hheader.firstEntry_le)]
    exact Nat.sub_le_sub_right (UInt32.le_iff_toNat_le.mp hheader.firstEntry_le) _
  obtain ⟨table, c, next, hc, hbefore, hread⟩ :=
    Sections.exists_cursor_of_entriesOfUnit hsection hstop hpart hepart
  obtain ⟨hposition, hcontains, hcursor⟩ :=
    Sections.cursorAt_of_inUnit hheader hspace hsection hc hbefore (readIndexed_entry hread).2.1
  obtain ⟨code, middle, hcode, hskip⟩ := skipValues_of_readIndexed hread ha
  obtain ⟨hcut, hwhole⟩ := hc.partOf
  obtain ⟨unit, hunit, rfl⟩ := unitAt_of_contains htile hmem hcontains
  have habbreviation : info.abbreviation e.offset = .ok a := by
    obtain ⟨i, hi⟩ := Array.mem_iff_getElem?.mp he
    rw [EntryIndex.abbreviation, locate_eq (increasing_of_build hbuild hspace) hi, ha]
    rfl
  -- In the cut section the entry can be passed over as it was when it was indexed.
  obtain ⟨middle', hcode', hmiddle⟩ := Steady.again hcut hcode
  obtain ⟨next', hskip', -⟩ := Steady.again hmiddle hskip
  have hinside := inside_of_unsigned hcode'
  have hreadAt {α : Type} (values : Read α) (hvalues : ∀ d', middle'.PartOf d' →
      EndAlike Cursor.PartOf (fun _ => True) (values middle') (values d')) :
      info.readAt e.offset values = info.sections.readInUnit unit.header e.offset values := by
    rw [Sections.readInUnit, hsection, EntryIndex.readAt, hcursor]
    simp only [hposition]
    exact (eval_further hwhole hcode' hvalues).symm
  refine ⟨unit, hunit, hcontains, ?_, fun name => ?_⟩
  · rw [attributes_eq habbreviation hunit]
    exact hreadAt _ fun d' hpart => readValues_further hsize hinside hskip' hpart
  · rw [attribute?_eq habbreviation hunit, hreadAt _ fun d' hpart => readNamed_further hsize hinside name hskip' hpart]

/--
Where all attributes of an entry can be read, one that is asked for by its name is the first of that name among them, or
none if there is none. Both are read as if the section ended where the entry's unit does, whichever section that is, if
`.debug_info` and `.debug_types` are below 4 GiB together: only then each of their bytes has an offset of its own.
-/
theorem attribute_first (hbuild : build sections = .ok info) :
    (∀ offset values, info.attributes offset = .ok values → ∀ name,
      info.attribute? offset name = .ok ((values.find? fun v => v.name = name).map Attribute.value)) ∧
    (sections.space.size < 2 ^ 32 → ∀ e ∈ info.entries, ∀ a, e.abbreviation = some a →
      ∃ unit, info.ReadInUnit unit a e.offset) :=
  ⟨fun _ _ h => attribute?_of_attributes hbuild h, fun hspace _ he _ => exists_readInUnit hbuild hspace he⟩

/-- A compilation, and in the other section a type that says its size twice. -/
def sizeTwice : Sections where
  info := #[10, 0, 0, 0, 4, 0, 0, 0, 0, 0, 4, 1, 0x61, 0]
  types := #[24, 0, 0, 0, 4, 0, 0, 0, 0, 0, 4, 1, 2, 3, 4, 5, 6, 7, 8, 23, 0, 0, 0, 2, 5, 6, 0x81, 1]
  abbreviations := #[1, 0x11, 0, 3, 8, 0, 0, 2, 0x24, 0, 0x0b, 0x0b, 0x0b, 0x0b, 0x3e, 0x0f, 0, 0, 0]

theorem attributes_sizeTwice : (build sizeTwice).toOption.bind (fun info =>
    info.entries[1]?.bind fun e => e.abbreviation.map fun _ => (e.offset, (info.attributes e.offset).toOption,
      (info.unitAt e.offset).toOption.map fun unit => unit.header.inTypes)) =
    some (37, some [⟨.byteSize, .constant 5⟩, ⟨.byteSize, .constant 6⟩, ⟨.encoding, .constant 129⟩], some true) := by
  decide +kernel

theorem attribute_first_sizeTwice : ∃ info unit a, build sizeTwice = .ok info ∧ sizeTwice.space.size < 2 ^ 32 ∧
    (⟨37, some a⟩ : IndexedEntry) ∈ info.entries ∧ info.attribute? 37 .byteSize = .ok (some (.constant 5)) ∧
      info.attribute? 37 .name = .ok none ∧ info.ReadInUnit unit a 37 ∧ unit.header.inTypes = true := by
  obtain ⟨info, hbuild, hfacts⟩ := Option.bind_eq_some_iff.mp attributes_sizeTwice
  obtain ⟨⟨offset, abbreviation⟩, hentry, hfacts⟩ := Option.bind_eq_some_iff.mp hfacts
  obtain ⟨a, ha, hfacts⟩ := Option.map_eq_some_iff.mp hfacts
  simp only [Prod.mk.injEq] at ha hfacts
  obtain ⟨rfl, hattributes, htypes⟩ := hfacts
  have hbuild := ok_of_toOption hbuild
  have hspace : sizeTwice.space.size < 2 ^ 32 := by decide
  have hmem := Array.mem_of_getElem? hentry
  obtain ⟨hfirst, hreads⟩ := attribute_first hbuild
  obtain ⟨unit, hunit⟩ := hreads hspace _ hmem a ha
  have hattributes := hfirst _ _ (ok_of_toOption hattributes)
  rw [hunit.unitAt_eq] at htypes
  rw [ha] at hmem
  exact ⟨info, unit, a, hbuild, hspace, hmem, hattributes .byteSize, hattributes .name, hunit, Option.some.inj htypes⟩

end DebugInfo

end FirmwareDebug
