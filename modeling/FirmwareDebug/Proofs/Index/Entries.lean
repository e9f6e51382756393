import FirmwareDebug.Proofs.Index.Units
import FirmwareDebug.Proofs.LittleEndian

/-!
# Entries tile their units

What is passed over for a value is a value of its form, so what is read for an entry is an entry, and
the entries of a unit are all of its bytes.
-/

namespace FirmwareDebug

open Read

/-! ## Values -/

namespace Form

variable {encoding : Encoding}

theorem mem_formsOfSize {form : Form} {size : Nat} (h : form.fixedSize encoding = some size) :
    form ∈ formsOfSize size ∨ form = .address ∧ size = encoding.addressSize.toNat ∨
      form = .refAddr ∧ size = encoding.infoReferenceSize.toNat := by
  cases form <;> cases h <;> simp [formsOfSize]

theorem valueBytes_of_fixedSize {form : Form} {bytes : List UInt8}
    (h : form.fixedSize encoding = some bytes.length) : ValueBytes encoding form bytes := by
  rcases mem_formsOfSize h with hmem | ⟨rfl, hsize⟩ | ⟨rfl, hsize⟩
  · exact .sized hmem
  · exact .address hsize
  · unfold Encoding.infoReferenceSize at hsize
    split at hsize
    · exact .oldReference ‹_› hsize
    · exact .reference (UInt16.not_le.mp ‹_›) hsize

theorem takes_indirectForm :
    Takes indirectForm fun taken form =>
      ∃ code, IsUnsigned taken code ∧ code.toNat < 2 ^ 16 ∧ form = .ofCode code.toUInt16 := by
  refine takes_unsigned.bind fun front code hcode => .ite (fun hfits => .pure ?_) fun _ => ?_
  · rw [List.append_nil]
    exact ⟨code, hcode, hfits, rfl⟩
  · exact .malformed _

theorem takes_directFor (budget : Nat) (form : Form) :
    Takes (directFor budget form) fun front last =>
      ∀ back, ValueBytes encoding last back → ValueBytes encoding form (front ++ back) := by
  induction budget generalizing form with
  | zero => exact .pure fun back h => h
  | succ budget ih =>
    unfold directFor
    split
    · cases ‹Nat.succ budget = 0›
    · rename_i heq
      cases heq
      refine takes_indirectForm.bind fun front next hnext =>
        (ih next).mono fun middle last hlast back hback => ?_
      obtain ⟨code, hcode, hfits, rfl⟩ := hnext
      rw [List.append_assoc]
      exact .indirect hcode hfits (hlast back hback)
    · exact .pure fun back h => h

theorem takes_block {α : Type} {read : Read α} {P : List UInt8 → α → Prop} (h : Takes read P)
    (length : α → Nat) : Takes (do Read.skip (length (← read))) fun taken _ =>
      ∃ front content a, P front a ∧ content.length = length a ∧ taken = front ++ content :=
  h.bind fun front a ha => (Read.takes_skip _).mono fun content _ hcontent =>
    ⟨front, content, a, ha, hcontent, rfl⟩

theorem takes_skipDirect (form : Form) :
    Takes (skipDirect encoding form) fun taken _ => ValueBytes encoding form taken := by
  unfold skipDirect
  split
  · rename_i size hsize
    refine (Read.takes_skip size).mono fun taken _ hlength => valueBytes_of_fixedSize ?_
    rw [hlength, hsize]
  · split
    · refine Takes.discard takes_text fun taken _ h => ?_
      obtain ⟨front, hzero, rfl⟩ := h
      exact .string hzero
    · refine (takes_block takes_byte UInt8.toNat).mono fun taken _ h => ?_
      obtain ⟨front, content, length, rfl, hcontent, rfl⟩ := h
      exact .block1 hcontent
    · refine (takes_block takes_half UInt16.toNat).mono fun taken _ h => ?_
      obtain ⟨front, content, _, ⟨hlength, rfl⟩, hcontent, rfl⟩ := h
      have hlt := littleEndian_lt front
      rw [hlength] at hlt
      rw [UInt16.toNat_ofNat_of_lt' hlt] at hcontent
      exact .block2 hlength hcontent
    · refine (takes_block takes_word UInt32.toNat).mono fun taken _ h => ?_
      obtain ⟨front, content, _, ⟨hlength, rfl⟩, hcontent, rfl⟩ := h
      have hlt := littleEndian_lt front
      rw [hlength] at hlt
      rw [UInt32.toNat_ofNat_of_lt' hlt] at hcontent
      exact .block4 hlength hcontent
    · refine (takes_block takes_unsigned UInt64.toNat).mono fun taken _ h => ?_
      obtain ⟨front, content, count, hcount, hcontent, rfl⟩ := h
      exact .block (by simp) hcount hcontent
    · refine (takes_block takes_unsigned UInt64.toNat).mono fun taken _ h => ?_
      obtain ⟨front, content, count, hcount, hcontent, rfl⟩ := h
      exact .block (by simp) hcount hcontent
    · exact Takes.discard takes_signed fun taken value h => .signed h
    iterate 8 exact Takes.discard takes_unsigned fun taken value h => .unsigned (by simp [unsignedForms]) h
    · exact .throw _

theorem takes_skip (form : Form) :
    Takes (form.skip encoding) fun taken _ => ValueBytes encoding form taken := by
  have hdirect : Takes form.direct fun front last =>
      ∀ back, ValueBytes encoding last back → ValueBytes encoding form (front ++ back) :=
    fun c => takes_directFor (c.left + 1) form c
  exact hdirect.bind fun front last hlast =>
    (takes_skipDirect last).mono fun back _ hback => hlast back hback

end Form

/-! ## Entries -/

theorem takes_skipValues (encoding : Encoding) (specs : List AttributeSpec) :
    Takes (skipValues encoding specs) fun taken _ => ∃ values : List (List UInt8), taken = values.flatten ∧
      List.Forall₂ (fun spec bytes => ValueBytes encoding spec.form bytes) specs values := by
  induction specs with
  | nil => exact .pure ⟨[], rfl, .nil⟩
  | cons spec rest ih =>
    refine (spec.form.takes_skip).bind fun front _ hfront => ih.mono fun back _ hback => ?_
    obtain ⟨values, rfl, hvalues⟩ := hback
    exact ⟨front :: values, rfl, .cons hfront hvalues⟩

theorem readIndexed_entry {table : AbbreviationTable} {encoding : Encoding} {bias : UInt32} {c next : Cursor}
    {e : IndexedEntry} (h : readIndexed table encoding bias c = .ok e next) :
    c.Ahead next ∧ e.offset = UInt32.ofNat c.position + bias ∧
      EntryBytes table encoding e.abbreviation (c.upTo next) := by
  unfold readIndexed at h
  obtain ⟨place, c₁, hplace, h⟩ := ran_of_bind h
  cases hplace
  -- The offset is fixed by the cursor, so the rest of the read is about the abbreviation alone.
  have hrest : Takes (do
      let code ← unsigned
      if code = 0 then return ⟨UInt32.ofNat c.position + bias, none⟩
      let abbreviation ← liftExcept (table.find code)
      skipValues encoding abbreviation.attributes
      return ⟨UInt32.ofNat c.position + bias, some abbreviation⟩ : Read IndexedEntry) fun taken e =>
        e.offset = UInt32.ofNat c.position + bias ∧ EntryBytes table encoding e.abbreviation taken := by
    refine takes_unsigned.bind fun front code hcode => .ite (fun hzero => .pure ⟨rfl, ?_⟩) fun hne => ?_
    · subst hzero
      rw [List.append_nil]
      exact .null hcode
    · have hfind : Takes (liftExcept (table.find code)) fun taken a => taken = [] ∧ table.find code = .ok a :=
        .liftExcept fun a ha => ⟨rfl, ha⟩
      refine hfind.bind fun middle a hfound => ?_
      obtain ⟨rfl, hfound⟩ := hfound
      refine (takes_skipValues encoding a.attributes).bind fun back _ hback => .pure ⟨rfl, ?_⟩
      obtain ⟨values, rfl, hvalues⟩ := hback
      rw [List.append_nil, List.nil_append]
      exact .entry hcode hne hfound hvalues
  exact hrest c e next h

/-! ## The entries of a unit -/

variable {table : AbbreviationTable} {encoding : Encoding}

theorem EntryBytes.length_pos {abbreviation : Option Abbreviation} {bytes : List UInt8}
    (h : EntryBytes table encoding abbreviation bytes) : 0 < bytes.length := by
  cases h with
  | null hcode => exact List.length_pos_of_ne_nil (ne_nil_of_isUnsigned hcode)
  | entry hcode =>
    have := List.length_pos_of_ne_nil (ne_nil_of_isUnsigned hcode)
    rw [List.length_append]
    omega

theorem readIndexed_position_lt {bias : UInt32} {c next : Cursor} {e : IndexedEntry}
    (h : readIndexed table encoding bias c = .ok e next) : c.position < next.position := by
  obtain ⟨hahead, -, hentry⟩ := readIndexed_entry h
  have hlength := hentry.length_pos
  rw [hahead.length_upTo] at hlength
  omega

theorem entriesTile_of_steps {bias : UInt32} {c : Cursor} {entries : List IndexedEntry}
    (h : Steps (readIndexed table encoding bias) c entries) (hposition : c.position ≤ c.limit)
    (hlimit : c.limit + bias.toNat < 2 ^ 32) :
    EntriesTile table encoding (c.position + bias.toNat) c.rest.toList entries := by
  induction h with
  | @done c hend =>
    have hrest : c.rest = #[] := Array.extract_empty_of_stop_le_start hend
    rw [hrest]
    exact .done
  | @next c after e rest hmore hstep hrest ih =>
    obtain ⟨hahead, hoffset, hentry⟩ := readIndexed_entry hstep
    have hlength := hahead.length_upTo
    have hle := hahead.position_le
    have hafter := hahead.le_limit hposition
    have htile := ih hafter (by rwa [hahead.limit_eq])
    rw [← hahead.upTo_append_rest hafter]
    refine .next ?_ hentry ?_
    · rw [hoffset, UnitHeader.toNat_ofNat_add _ _ (by omega)]
    · rwa [show c.position + bias.toNat + (c.upTo after).length = after.position + bias.toNat by omega]

theorem AbbreviationTable.offset_of_read {bytes : Bytes} {offset : UInt32} {table : AbbreviationTable}
    (h : AbbreviationTable.read bytes offset = .ok table) : table.offset = offset := by
  obtain ⟨entries, -, h⟩ := ok_of_bind h
  cases h
  rfl

namespace Sections

variable {sections : Sections}

/-- Every table is the one that is written at its offset. -/
def Tables (sections : Sections) (tables : List AbbreviationTable) : Prop :=
  ∀ table ∈ tables, AbbreviationTable.read sections.abbreviations table.offset = .ok table

theorem tables_of_tablesOf {known tables : List AbbreviationTable} {headers : List UnitHeader}
    (hknown : sections.Tables known) (h : sections.tablesOf known headers = .ok tables) :
    sections.Tables tables := by
  induction headers generalizing known with
  | nil =>
    cases h
    exact hknown
  | cons header rest ih =>
    unfold tablesOf at h
    split at h
    · exact ih hknown h
    · obtain ⟨table, htable, h⟩ := ok_of_bind h
      refine ih (fun other hmem => ?_) h
      rcases List.mem_append.mp hmem with hmem | hmem
      · exact hknown other hmem
      · rw [List.mem_singleton.mp hmem, AbbreviationTable.offset_of_read htable]
        exact htable

theorem entriesOfUnit_eq_ok_iff {tables : List AbbreviationTable} {header : UnitHeader}
    {entries : List IndexedEntry} {region : String} {bytes : Bytes} {bias : UInt32}
    (hsection : sections.unitSection header.inTypes = (region, bytes, bias)) :
    sections.entriesOfUnit tables header = .ok entries ↔
      ∃ unit table, (Cursor.place region bytes (header.firstEntry - bias).toNat).truncated?
          ((header.stop - bias).toNat - (header.firstEntry - bias).toNat) = some unit ∧
        (tables.find? fun table => table.offset = header.abbreviations) = some table ∧
          (Decoded.ofCursor (readIndexed table header.encoding bias) unit).all = .ok entries := by
  simp only [entriesOfUnit, hsection, bind_eq_ok_iff, eval_eq_ok_iff, run_within_eq_ok_iff]
  constructor
  · rintro ⟨unit, ⟨_, -, hunit⟩, h⟩
    split at h
    case h_1 table hfound => exact ⟨unit, table, hunit, hfound, h⟩
    case h_2 => cases h
  · rintro ⟨unit, table, hunit, hfound, h⟩
    refine ⟨unit, ⟨_, rfl, hunit⟩, ?_⟩
    rw [hfound]
    exact h

@[simp]
theorem entriesOf_cons_eq_ok_iff {tables : List AbbreviationTable} {header : UnitHeader} {rest : List UnitHeader}
    {entries : List IndexedEntry} : sections.entriesOf tables (header :: rest) = .ok entries ↔
      ∃ front, sections.entriesOfUnit tables header = .ok front ∧
        ∃ back, sections.entriesOf tables rest = .ok back ∧ front ++ back = entries := by
  simp only [entriesOf, bind_eq_ok_iff, pure_eq_ok_iff]

theorem hasEntries_of_entriesOfUnit {tables : List AbbreviationTable} {header : UnitHeader}
    {entries : List IndexedEntry} (htables : sections.Tables tables) (hholds : sections.Holds header)
    (hspace : sections.space.size < 2 ^ 32) (h : sections.entriesOfUnit tables header = .ok entries) :
    header.HasEntries sections entries := by
  obtain ⟨⟨region, bytes, bias⟩, hsection⟩ : ∃ s, sections.unitSection header.inTypes = s := ⟨_, rfl⟩
  obtain ⟨unit, table, htruncated, hfound, h⟩ := (entriesOfUnit_eq_ok_iff hsection).mp h
  obtain ⟨-, hbytes, hposition, hlimit, hfits⟩ := Cursor.eq_of_truncated? htruncated
  obtain ⟨hextract, hbias⟩ := unitBytes_eq hholds hspace hsection
  have hfirst := UInt32.toNat_sub_of_le _ _ hbias
  have hstop := UInt32.toNat_sub_of_le _ _ (UInt32.le_trans hbias hholds.firstEntry_le)
  have hle := UInt32.le_iff_toNat_le.mp hholds.firstEntry_le
  have hbias' := UInt32.le_iff_toNat_le.mp hbias
  have hlt := header.stop.toNat_lt
  simp only [Cursor.place] at hposition hlimit hbytes
  have hsteps : Steps (readIndexed table header.encoding bias) unit entries :=
    steps_of_ofCursor (fun c e after hread =>
      ⟨(readIndexed_entry hread).1.limit_eq, readIndexed_position_lt hread⟩) h
  have htile := entriesTile_of_steps hsteps (by omega) (by omega)
  have htable := htables table (List.mem_of_find?_eq_some hfound)
  have hoffset : table.offset = header.abbreviations := by simpa using List.find?_some hfound
  rw [hoffset] at htable
  refine ⟨hholds.offset_lt, hholds.firstEntry_le, table, htable, ?_⟩
  rw [hextract]
  have hrest : unit.rest = bytes.extract (header.firstEntry - bias).toNat (header.stop - bias).toNat := by
    unfold Cursor.rest
    rw [hbytes, hposition, hlimit]
    congr 1
    omega
  rw [hrest] at htile
  rwa [show header.firstEntry.toNat = unit.position + bias.toNat by omega]

theorem hasEntries_of_entriesOf {tables : List AbbreviationTable} {headers : List UnitHeader}
    {entries : List IndexedEntry} (htables : sections.Tables tables)
    (hholds : ∀ header ∈ headers, sections.Holds header) (hspace : sections.space.size < 2 ^ 32)
    (h : sections.entriesOf tables headers = .ok entries) :
    ∃ parts : List (List IndexedEntry), entries = parts.flatten ∧
      List.Forall₂ (UnitHeader.HasEntries sections) headers parts := by
  induction headers generalizing entries with
  | nil =>
    cases h
    exact ⟨[], rfl, .nil⟩
  | cons header rest ih =>
    obtain ⟨front, hfront, back, hback, rfl⟩ := entriesOf_cons_eq_ok_iff.mp h
    obtain ⟨hheader, hrest⟩ := List.forall_mem_cons.mp hholds
    obtain ⟨parts, rfl, hparts⟩ := ih hrest hback
    exact ⟨front :: parts, rfl, .cons (hasEntries_of_entriesOfUnit htables hheader hspace hfront) hparts⟩

end Sections

theorem EntryIndex.build_eq_ok_iff {sections : Sections} {headers : List UnitHeader} {index : EntryIndex} :
    EntryIndex.build sections headers = .ok index ↔ ∃ tables, sections.tablesOf [] headers = .ok tables ∧
      ∃ entries, sections.entriesOf tables headers = .ok entries ∧ ⟨sections, entries.toArray⟩ = index := by
  simp only [EntryIndex.build, bind_eq_ok_iff, pure_eq_ok_iff]

end FirmwareDebug
