import FirmwareDebug.Proofs.LineTable.OwnUnit
import FirmwareDebug.Proofs.LineTable.WrittenHeader
import FirmwareDebug.Proofs.Moves

/-!
# How long the tables of a header get

An old table takes a byte for each entry at least, so a unit has no more entries than bytes. A new one takes
for an entry what the values of its columns take. Where these are no bytes at all, nothing but the size of
the count bounds the table.
-/

namespace FirmwareDebug.LineTable

open Leb128 Read

variable {encoding : Encoding} {texts : TextSections}

/-! ## Entries -/

/-- Values of the column take bytes, or are paths, for which no value without bytes will do. -/
def Column.Weighs (column : Column) : Prop := column.content = 1 ∨ Form.ofCode column.form ∉ formsOfSize 0

def ColumnsWeigh (columns : List Column) : Prop := ∃ column ∈ columns, column.Weighs

/-- What a value in a column says of an entry. -/
def FileEntry.store (texts : TextSections) (entry : FileEntry) (column : Column) (value : AttributeValue) :
    Read FileEntry :=
  if column.content = 1 then do return { entry with name := ← pathText texts column.form value }
  else if column.content = 2 then return { entry with directory := value.constant?.getD 0 }
  else return entry

def readValue (encoding : Encoding) (texts : TextSections) (entry : FileEntry) (column : Column) : Read FileEntry := do
  entry.store texts column (← (Form.ofCode column.form).read encoding none)

theorem readEntry_cons (entry : FileEntry) (column : Column) (columns : List Column) :
    readEntry encoding texts entry (column :: columns) = (do
      let entry ← readValue encoding texts entry column
      readEntry encoding texts entry columns) := by
  rw [readEntry, readValue, bind_assoc]
  congr 1
  funext value
  unfold FileEntry.store
  split <;> simp_all

theorem gives_pathText (form : UInt16) (value : AttributeValue) : Gives (pathText texts form value) fun _ => True := by
  unfold pathText
  split
  · exact .pure trivial
  · exact Takes.liftExcept fun _ _ => trivial
  · exact Takes.liftExcept fun _ _ => trivial
  · exact .malformed _

theorem gives_store (entry : FileEntry) (column : Column) (value : AttributeValue) :
    Gives (entry.store texts column value) fun _ => True :=
  .ite (fun _ => gives_map (gives_pathText _ _) _) fun _ => .ite (fun _ => .pure trivial) fun _ => .pure trivial

theorem gives_readValue (entry : FileEntry) (column : Column) :
    Gives (readValue encoding texts entry column) fun _ => True :=
  (Form.gives_read _).bind fun value _ => gives_store entry column value

theorem gives_readEntry (entry : FileEntry) (columns : List Column) :
    Gives (readEntry encoding texts entry columns) fun _ => True := by
  induction columns generalizing entry with
  | nil => exact .pure trivial
  | cons column columns ih =>
    rw [readEntry_cons]
    exact (gives_readValue entry column).bind fun entry _ => ih entry

theorem exists_read_eq_pure (encoding : Encoding) (texts : TextSections) {form : Form}
    (hform : form ∈ formsOfSize 0) :
    ∃ value, form.read encoding none = pure value ∧ ∀ code, pathText texts code value = malformed (.pathForm code) := by
  rcases List.mem_pair.mp hform with rfl | rfl
  · exact ⟨.flag true, rfl, fun _ => rfl⟩
  · exact ⟨.signed 0, rfl, fun _ => rfl⟩

theorem moves_readValue {column : Column} (h : column.Weighs) (entry : FileEntry) :
    Moves (readValue encoding texts entry column) := by
  unfold readValue
  by_cases hform : Form.ofCode column.form ∈ formsOfSize 0
  · obtain ⟨value, hvalue, hpath⟩ := exists_read_eq_pure encoding texts hform
    rw [hvalue, pure_bind, FileEntry.store, if_pos (h.resolve_right fun hne => hne hform), hpath]
    exact Moves.map (Takes.malformed _) _
  · exact (Form.moves_read hform).bind fun value => gives_store entry column value

theorem readValue_of_not_weighs (encoding : Encoding) (texts : TextSections) {column : Column} (h : ¬ column.Weighs)
    (entry : FileEntry) : ∃ next, readValue encoding texts entry column = pure next := by
  obtain ⟨hcontent, hform⟩ := not_or.mp h
  obtain ⟨value, hvalue, -⟩ := exists_read_eq_pure encoding texts (Decidable.not_not.mp hform)
  rw [readValue, hvalue, pure_bind, FileEntry.store, if_neg hcontent]
  split <;> exact ⟨_, rfl⟩

theorem moves_readEntry {columns : List Column} (h : ColumnsWeigh columns) (entry : FileEntry) :
    Moves (readEntry encoding texts entry columns) := by
  unfold ColumnsWeigh at h
  induction columns generalizing entry with
  | nil => simp at h
  | cons column columns ih =>
    rw [readEntry_cons]
    by_cases hcolumn : column.Weighs
    · exact (moves_readValue hcolumn entry).bind fun entry => gives_readEntry entry columns
    · have hrest : ∃ column ∈ columns, column.Weighs := by simpa [hcolumn] using h
      exact .andThen (gives_readValue entry column) fun entry => ih hrest entry

theorem readEntry_of_not_weigh (encoding : Encoding) (texts : TextSections) {columns : List Column}
    (h : ¬ ColumnsWeigh columns) (entry : FileEntry) : ∃ last, readEntry encoding texts entry columns = pure last := by
  unfold ColumnsWeigh at h
  induction columns generalizing entry with
  | nil => exact ⟨entry, rfl⟩
  | cons column columns ih =>
    simp only [List.exists_mem_cons_iff, not_or] at h
    obtain ⟨next, hnext⟩ := readValue_of_not_weighs encoding texts h.1 entry
    rw [readEntry_cons, hnext, pure_bind]
    exact ih h.2 next

/-! ## Tables -/

theorem gives_readColumns : Gives readColumns fun _ => True := by
  have hcolumn : Moves readColumn := by
    apply moves_unsigned.bind
    intro content
    apply gives_unsigned.bind
    intro form _
    exact .ite (fun _ => .malformed _) fun _ => .ite (fun _ => .malformed _) fun _ => .pure trivial
  exact gives_byte.bind fun count _ => (takes_times hcolumn count.toNat).gives_true

theorem length_le_of_readTable {c behind next : Cursor} {columns : List Column} {entries : List FileEntry}
    (hcolumns : readColumns c = .ok columns behind) (h : ColumnsWeigh columns)
    (hread : readTable encoding texts c = .ok entries next) :
    c.Ahead next ∧ c.position + entries.length ≤ next.position := by
  have hentries : Takes (do times (readEntry encoding texts ⟨"", 0⟩ columns) (← unsigned).toNat)
      fun taken entries => entries.length ≤ taken.length := by
    apply takes_unsigned.bind
    intro front count _
    apply (takes_times (moves_readEntry h _) count.toNat).mono
    intro back entries hback
    rw [List.length_append]
    omega
  rw [readTable, run_bind_of_ok hcolumns] at hread
  obtain ⟨hahead, hlength⟩ := hentries behind entries next hread
  have hbehind := (gives_readColumns c columns behind hcolumns).1
  have hposition := hbehind.position_le
  have hposition' := hahead.position_le
  rw [hahead.length_upTo] at hlength
  exact ⟨hbehind.trans hahead, by omega⟩

theorem moves_readName : Moves readName := moves_text.map _

theorem moves_readFile : Moves readFile := by
  apply moves_readName.bind
  intro name
  cases name with
  | none => exact .pure trivial
  | some name =>
    apply gives_unsigned.bind
    intro directory _
    exact (gives_discard gives_unsigned).bind fun _ _ => gives_map (gives_discard gives_unsigned) _

theorem takes_listedTables (hversion : ¬ 5 ≤ encoding.version) :
    Takes (readTables encoding texts) fun taken tables => tables.1.length + tables.2.length ≤ taken.length := by
  rw [readTables, if_neg hversion]
  apply (takes_untilNone moves_readName).bind
  intro front directories hfront
  apply (takes_map (takes_untilNone moves_readFile) _).mono
  rintro back _ ⟨files, hback, rfl⟩
  rw [List.length_append]
  exact Nat.add_le_add hfront hback

theorem length_le_of_describedTables (hversion : 5 ≤ encoding.version) {c last : Cursor}
    {tables : List String × List FileEntry} (hread : readTables encoding texts c = .ok tables last)
    {directories files : List Column} (hdirectories : readColumns.eval c = .ok directories)
    (hfiles : (do discard (readTable encoding texts); readColumns).eval c = .ok files)
    (hheavy : ColumnsWeigh directories) (hheavy' : ColumnsWeigh files) :
    c.Ahead last ∧ c.position + tables.1.length + tables.2.length ≤ last.position := by
  simp only [readTables, if_pos hversion, run_bind_eq_ok_iff, run_pure_eq_ok_iff] at hread
  obtain ⟨names, middle, hfirst, entries, last, hsecond, rfl, rfl⟩ := hread
  obtain ⟨behind, hcolumns⟩ := eval_eq_ok_iff.mp hdirectories
  obtain ⟨behind', hrest⟩ := eval_eq_ok_iff.mp hfiles
  rw [run_bind, run_discard, hfirst] at hrest
  obtain ⟨hahead, hlength⟩ := length_le_of_readTable hcolumns hheavy hfirst
  obtain ⟨hahead', hlength'⟩ := length_le_of_readTable hrest hheavy' hsecond
  refine ⟨hahead.trans hahead', ?_⟩
  show c.position + (names.map FileEntry.name).length + entries.length ≤ last.position
  rw [List.length_map]
  omega

/-! ## Where the tables stand -/

/-- The place of the tables of a header. -/
def Header.tablesStart (header : Header) : Nat :=
  header.offset.toNat + (if 5 ≤ header.version then 18 else if 4 ≤ header.version then 16 else 15) +
    (header.opcodeBase.toNat - 1)

/-- The header is given by what reads its tables some bytes on. -/
def OpensTables (texts : TextSections) (read : Read Header) (P : Nat → Header → Prop) : Prop :=
  ∀ c header last, read c = .ok header last → ∃ count, c.Ahead (c.advance count) ∧ P count header ∧
    readTables ⟨header.version, header.addressSize⟩ texts (c.advance count) =
      .ok (header.directories, header.files) last

namespace OpensTables

variable {α : Type} {read : Read α} {f : α → Read Header} {P : Nat → Header → Prop}

theorem throw_bind {e : Fault} : OpensTables texts (throw e >>= f) P := by
  rintro c header last ⟨⟩

theorem malformed_bind {defect : Defect} : OpensTables texts (malformed defect >>= f) P := by
  rintro c header last ⟨⟩

theorem tables {version : UInt16} {addressSize : UInt8} {header : List String × List FileEntry → Header}
    (h : ∀ tables, (header tables).version = version ∧ (header tables).addressSize = addressSize ∧
      (header tables).directories = tables.1 ∧ (header tables).files = tables.2)
    (hP : ∀ tables, P 0 (header tables)) :
    OpensTables texts (do return header (← readTables ⟨version, addressSize⟩ texts)) P := by
  intro c _ last hread
  obtain ⟨tables, _, htables, hread⟩ := ran_of_bind hread
  cases hread
  obtain ⟨hversion, hsize, hdirectories, hfiles⟩ := h tables
  refine ⟨0, .refl c, hP tables, ?_⟩
  rw [hversion, hsize, hdirectories, hfiles]
  exact htables

theorem bind {n : Nat} (h : Takes read fun taken _ => taken.length = n)
    (hf : ∀ a, OpensTables texts (f a) fun count => P (n + count)) : OpensTables texts (read >>= f) P := by
  intro c header last hread
  obtain ⟨a, next, hfirst, hrest⟩ := ran_of_bind hread
  obtain ⟨hahead, hlength⟩ := h c a next hfirst
  obtain ⟨count, hcount, hP, htables⟩ := hf a next header last hrest
  have hnext : next = c.advance n := by
    rw [hahead.length_upTo] at hlength
    obtain ⟨m, rfl, -⟩ := hahead
    simp only [Cursor.advance] at hlength
    rw [show m = n by omega]
  subst hnext
  rw [Cursor.advance_advance] at hcount htables
  exact ⟨n + count, hahead.trans hcount, hP, htables⟩

theorem mono {read : Read Header} {Q : Nat → Header → Prop} (h : OpensTables texts read P)
    (hPQ : ∀ count header, P count header → Q count header) : OpensTables texts read Q := by
  intro c header last hread
  obtain ⟨count, hcount, hP, htables⟩ := h c header last hread
  exact ⟨count, hcount, hPQ count header hP, htables⟩

end OpensTables

theorem takes_one_byte : Takes byte fun taken _ => taken.length = 1 :=
  takes_byte.mono fun _ _ htaken => by rw [htaken, List.length_singleton]

theorem opensTables_readParameters (offset : UInt32) (stop : Nat) (version : UInt16) (addressSize : UInt8) (start : Nat) :
    OpensTables texts (readParameters texts offset stop version addressSize start) fun count header =>
      header.offset = offset ∧ header.version = version ∧
        count = (if 4 ≤ version then 6 else 5) + (header.opcodeBase.toNat - 1) := by
  unfold readParameters
  apply OpensTables.bind takes_one_byte
  intro minimum
  split
  case' isTrue => apply OpensTables.bind takes_one_byte
  case' isFalse => apply OpensTables.bind (Takes.pure rfl)
  all_goals
    intro maximum
    apply OpensTables.bind takes_one_byte
    intro statement
    apply OpensTables.bind ((takes_map takes_one_byte _).mono fun _ _ ⟨_, h, _⟩ => h)
    intro lineBase
    apply OpensTables.bind takes_one_byte
    intro lineRange
    dsimp only
    split
    · exact .malformed_bind
    apply OpensTables.bind takes_one_byte
    intro opcodeBase
    apply OpensTables.bind ((takes_bytes _).mono fun _ _ ⟨htaken, hlength⟩ => htaken ▸ hlength)
    intro operandCounts
    apply OpensTables.tables
    · intro tables
      exact ⟨rfl, rfl, rfl, rfl⟩
    · intro tables
      exact ⟨rfl, rfl, by simp only [List.length_nil]; omega⟩

theorem opensTables_readFields (offset : UInt32) (stop : Nat) :
    OpensTables texts (readFields texts offset stop) fun count header =>
      header.offset = offset ∧ offset.toNat + 4 + count = header.tablesStart := by
  have hsize {length : Nat} {α : Type} {read : Read α} {P : List UInt8 → α → Prop}
      (h : Takes read fun taken a => taken.length = length ∧ P taken a) : Takes read fun taken _ => taken.length = length :=
    h.mono fun _ _ htaken => htaken.1
  rw [readFields_eq]
  apply OpensTables.bind (hsize takes_half)
  intro version
  dsimp only
  split
  · exact .throw_bind
  by_cases hversion : 5 ≤ version
  on_goal 1 =>
    rw [if_pos hversion]
    apply OpensTables.bind takes_one_byte
    intro size
    apply OpensTables.bind (takes_one_byte.discard fun _ _ htaken => htaken)
    intro _
  on_goal 2 => rw [if_neg hversion]
  all_goals
    rw [pure_bind]
    apply OpensTables.bind (hsize takes_word)
    intro headerLength
    apply OpensTables.bind (Takes.get (P := fun taken _ => taken.length = 0) fun _ => rfl)
    intro place
    apply (opensTables_readParameters offset stop version _ _).mono
    rintro count header ⟨rfl, rfl, rfl⟩
    refine ⟨rfl, ?_⟩
    unfold Header.tablesStart
  · rw [if_pos hversion, if_pos (UInt16.le_trans (by decide) hversion)]
    omega
  · rw [if_neg hversion]
    split <;> omega

/-- The length that a unit tells of itself. -/
def unitLength (section' : Bytes) (offset : UInt32) : Nat :=
  littleEndian (section'.extract offset.toNat (offset.toNat + 4)).toList

variable {section' : Bytes} {offset : UInt32} {header : Header}

theorem unitLength_of_read (h : Header.read section' texts offset = .ok header) :
    offset.toNat + 4 + unitLength section' offset ≤ section'.size := by
  obtain ⟨⟨unit, stop⟩, hunit, -⟩ := ok_of_bind h
  obtain ⟨last, hunit⟩ := eval_eq_ok_iff.mp hunit
  simp only [readUnit, run_bind_eq_ok_iff, run_guard_eq_ok_iff, run_position_eq_ok_iff, run_within_eq_ok_iff] at hunit
  obtain ⟨length, _, hlength, -, _, next, ⟨rfl, rfl⟩, inner, _, ⟨-, htruncated⟩, -⟩ := hunit
  obtain ⟨hahead, htaken, hvalue⟩ := takes_word _ _ _ hlength
  have hposition := hahead.position_le
  rw [hahead.length_upTo] at htaken
  simp only [Cursor.place] at htaken hposition
  have hnext : next.position = offset.toNat + 4 := by omega
  have htold : length.toNat = unitLength section' offset := by
    have hbytes : (Cursor.place region section' offset.toNat).upTo next =
        (section'.extract offset.toNat (offset.toNat + 4)).toList := by
      rw [Cursor.upTo, hnext]
      rfl
    have hlt := littleEndian_lt ((Cursor.place region section' offset.toNat).upTo next)
    rw [hahead.length_upTo, hnext] at hlt
    rw [hvalue, unitLength, ← hbytes]
    apply UInt32.toNat_ofNat_of_lt'
    simpa [Cursor.place] using hlt
  obtain ⟨-, -, -, -, hfits⟩ := Cursor.eq_of_truncated? htruncated
  rwa [hnext, htold, hahead.limit_eq] at hfits

/-- The cursor in front of the tables that may read up to the end of the unit. -/
def Header.tablesCursor (header : Header) (section' : Bytes) (hstop : header.stop ≤ section'.size) : Cursor :=
  ⟨region, section', header.stop, header.tablesStart, hstop⟩

theorem tables_of_read (h : Header.read section' texts offset = .ok header) :
    header.offset = offset ∧ header.stop = offset.toNat + 4 + unitLength section' offset ∧
      offset.toNat + 4 ≤ header.tablesStart ∧ header.tablesStart ≤ header.stop ∧
      ∃ (hstop : header.stop ≤ section'.size) (last : Cursor),
        readTables ⟨header.version, header.addressSize⟩ texts (header.tablesCursor section' hstop) =
          .ok (header.directories, header.files) last := by
  have hunit := unitLength_of_read h
  obtain ⟨-, hstop⟩ := start_of_read hunit rfl h
  rw [read_eq hunit rfl] at h
  split at h
  · cases h
  obtain ⟨last, hfields⟩ := eval_eq_ok_iff.mp h
  obtain ⟨count, hcount, ⟨hoffset, hplace⟩, htables⟩ := opensTables_readFields offset _ _ _ _ hfields
  have hposition := hcount.position_le
  have hlimit := hcount.le_limit (Nat.le_add_right _ _)
  simp only [unitCursor, Cursor.advance, hplace] at hposition hlimit htables
  refine ⟨hoffset, hstop, by omega, by omega, by omega, last, ?_⟩
  simpa only [Header.tablesCursor, hstop] using htables

/-! ## Tables that are bounded -/

/-- The unit of a header has at least as many bytes as the tables have entries. -/
def Header.TablesBounded (header : Header) (section' : Bytes) : Prop :=
  header.directories.length + header.files.length ≤ unitLength section' header.offset

/-- What is read from the place of the tables on, inside the unit. -/
def Header.atTables {α : Type} (header : Header) (section' : Bytes) (read : Read α) : Except Fault α := do
  let tables ← (within (header.stop - header.tablesStart)).eval (.place region section' header.tablesStart)
  read.eval tables

/-- The columns of the two tables of a header that describes them. -/
structure Header.HasColumns (header : Header) (section' : Bytes) (texts : TextSections) (directories files : List Column) :
    Prop where
  version_ge : 5 ≤ header.version
  directories_eq : header.atTables section' readColumns = .ok directories
  files_eq : header.atTables section' (do
    discard (readTable ⟨header.version, header.addressSize⟩ texts)
    readColumns) = .ok files

theorem atTables_eq {α : Type} (read : Read α) (hle : header.tablesStart ≤ header.stop)
    (hstop : header.stop ≤ section'.size) :
    header.atTables section' read = read.eval (header.tablesCursor section' hstop) := by
  have hend : header.tablesStart + (header.stop - header.tablesStart) = header.stop := Nat.add_sub_cancel' hle
  have hfits : (Cursor.place region section' header.tablesStart).position + (header.stop - header.tablesStart) ≤
      (Cursor.place region section' header.tablesStart).limit := by
    show header.tablesStart + (header.stop - header.tablesStart) ≤ section'.size
    omega
  unfold Header.atTables eval within Cursor.truncated?
  simp only [dif_pos hfits]
  simp only [Cursor.place, hend]
  rfl

theorem tablesBounded_of_length_le (h : Header.read section' texts offset = .ok header)
    (htables : ∀ hstop last, readTables ⟨header.version, header.addressSize⟩ texts (header.tablesCursor section' hstop) =
      .ok (header.directories, header.files) last → (header.tablesCursor section' hstop).Ahead last ∧
        header.tablesStart + (header.directories.length + header.files.length) ≤ last.position) :
    header.TablesBounded section' := by
  obtain ⟨rfl, hunit, hplace, hle, hstop, last, hread⟩ := tables_of_read h
  obtain ⟨hahead, hlength⟩ := htables hstop last hread
  have hlimit := hahead.le_limit hle
  rw [hahead.limit_eq] at hlimit
  simp only [Header.tablesCursor] at hlimit
  unfold Header.TablesBounded
  omega

theorem tablesBounded_listed (h : Header.read section' texts offset = .ok header) (hversion : header.version < 5) :
    header.TablesBounded section' := by
  apply tablesBounded_of_length_le h
  intro hstop last hread
  obtain ⟨hahead, hlength⟩ := takes_listedTables (UInt16.not_le.mpr hversion) _ _ _ hread
  have hposition := hahead.position_le
  rw [hahead.length_upTo] at hlength
  simp only [Header.tablesCursor] at hlength hposition
  exact ⟨hahead, by omega⟩

theorem tablesBounded_described (h : Header.read section' texts offset = .ok header) {directories files : List Column}
    (hcolumns : header.HasColumns section' texts directories files) (hdirectories : ColumnsWeigh directories)
    (hfiles : ColumnsWeigh files) : header.TablesBounded section' := by
  obtain ⟨-, -, -, hle, hstop, -⟩ := tables_of_read h
  obtain ⟨hversion, hfirst, hsecond⟩ := hcolumns
  rw [atTables_eq _ hle hstop] at hfirst hsecond
  apply tablesBounded_of_length_le h
  intro _ last hread
  obtain ⟨hahead, hlength⟩ := length_le_of_describedTables hversion hread hfirst hsecond hdirectories hfiles
  rw [Nat.add_assoc] at hlength
  exact ⟨hahead, hlength⟩

/-! ## Tables without weight -/

/-- The columns of a table, whose number is one byte. -/
structure Format where
  columns : List Column
  length_lt : columns.length < 2 ^ 8

namespace Format

/-- A table of some entries that no bytes stand for. -/
def blank (format : Format) (count : Nat) (entry : FileEntry) : Description :=
  ⟨format.columns, List.replicate count ([], entry)⟩

variable (format : Format) {count : Nat} (entry : FileEntry)

variable {entry} in
theorem valid_blank (hcount : count < 2 ^ 64)
    (hentry : count ≠ 0 → readEntry encoding texts ⟨"", 0⟩ format.columns = pure entry) :
    (format.blank count entry).Valid encoding texts where
  columns_lt := format.length_lt
  entries_lt := by simpa [blank] using hcount
  reads_entry := by
    intro written hmem
    obtain ⟨hne, rfl⟩ := List.mem_replicate.mp hmem
    show Reads (readEntry encoding texts ⟨"", 0⟩ format.columns) [] entry
    rw [hentry hne]
    exact .pure entry

theorem length_write_blank_le (hcount : count < 128 ^ 3) : (format.blank count entry).write.length ≤ 1534 := by
  have hcolumn (column : Column) : column.write.length ≤ 6 := by
    have hcode (code : UInt16) : (writeUnsigned code.toNat).length ≤ 3 :=
      length_writeUnsigned (Nat.lt_trans code.toNat_lt (by decide)) (by decide)
    have hcontent := hcode column.content
    have hform := hcode column.form
    rw [Column.write, List.length_append]
    omega
  have hcolumns : (format.columns.flatMap Column.write).length ≤ format.columns.length * 6 := by
    induction format.columns with
    | nil => simp
    | cons column columns ih =>
      have hfirst := hcolumn column
      simp only [List.flatMap_cons, List.length_append, List.length_cons]
      omega
  have hnumber := length_writeUnsigned hcount (by decide)
  have hlt := format.length_lt
  simp only [Description.write, blank, List.length_append, List.length_singleton, List.length_replicate,
    List.flatMap_replicate, List.flatten_replicate_nil, List.length_nil]
  omega

end Format

theorem two_le_five : (2 : UInt16) ≤ 5 := by decide

theorem five_le_five : (5 : UInt16) ≤ 5 := UInt16.le_refl 5

/-- What stands in front of the tables in a unit without a program. -/
def plainPreamble (tables : List UInt8) : Preamble where
  version := 5
  addressSize := 4
  segmentSize := 0
  maximumOperations := 1
  defaultIsStatement := 1
  lineBase := 0
  lineRange := 1
  operandCounts := List.replicate 12 0
  tables
  version_ge := two_le_five
  version_le := five_le_five
  lineRange_ne := by decide
  length_operandCounts := rfl

theorem length_front_plainPreamble (tables : List UInt8) :
    ((plainPreamble tables).lead ++ (plainPreamble tables).parameters).length = 26 := rfl

theorem length_body_plainPreamble (tables : List UInt8) : ((plainPreamble tables).body []).length = 26 + tables.length := by
  rw [Preamble.body, ← List.append_assoc, List.length_append, length_front_plainPreamble, List.append_nil]
  rfl

/-- A unit of these tables and nothing behind them. -/
def plainUnit (directories files : Description) : Bytes :=
  ((plainPreamble (directories.write ++ files.write)).write []).toArray

/-- The header of the unit. -/
def plainHeader (directories files : Description) : Header :=
  (plainPreamble (directories.write ++ files.write)).header 0 []
    ((directories.entries.map Prod.snd).map FileEntry.name, files.entries.map Prod.snd)

section

variable {directories files : Description} (hdirectories : directories.Valid ⟨5, 4⟩ texts)
  (hfiles : files.Valid ⟨5, 4⟩ texts) (hshort : (directories.write ++ files.write).length < 2 ^ 16)
include hdirectories hfiles hshort

theorem read_plainUnit :
    Header.read (plainUnit directories files) texts 0 = .ok (plainHeader directories files) := by
  have hbody := length_body_plainPreamble (directories.write ++ files.write)
  have htables : WritesTables ⟨5, 4⟩ texts (directories.write ++ files.write) _ := .described five_le_five hdirectories hfiles
  have hread : Header.read ([] ++ ((plainPreamble (directories.write ++ files.write)).write [] ++ [])).toArray texts 0 = _ :=
    read_of_tables texts 0 [] rfl (by omega) (List.append_nil _).symm htables
  rwa [List.nil_append, List.append_nil] at hread

theorem unitLength_plainUnit :
    unitLength (plainUnit directories files) 0 = 26 + (directories.write ++ files.write).length := by
  obtain ⟨-, hstop, -⟩ := tables_of_read (read_plainUnit hdirectories hfiles hshort)
  have hbody := length_body_plainPreamble (directories.write ++ files.write)
  have hend : (plainHeader directories files).stop =
      (0 : UInt32).toNat + 4 + ((plainPreamble (directories.write ++ files.write)).body []).length := rfl
  omega

theorem holds_plainUnit (hstop : (plainHeader directories files).stop ≤ (plainUnit directories files).size) :
    ((plainHeader directories files).tablesCursor (plainUnit directories files) hstop).Holds
      (directories.write ++ files.write) := by
  have hlength := unitLength_plainUnit hdirectories hfiles hshort
  obtain ⟨-, hend, -, hle, -⟩ := tables_of_read (read_plainUnit hdirectories hfiles hshort)
  apply Cursor.Holds.of_eq hle
  show (((plainPreamble (directories.write ++ files.write)).write []).take (plainHeader directories files).stop).drop 30 = _
  rw [List.take_of_length_le]
  · rw [Preamble.write, Preamble.body, ← List.append_assoc _ (Preamble.parameters _), ← List.append_assoc,
      List.drop_left' (by rw [List.length_append, length_front_plainPreamble]; rfl), List.append_nil]
    rfl
  · rw [Preamble.write, List.length_append, length_body_plainPreamble, hend, hlength]
    exact Nat.le_of_eq rfl

theorem hasColumns_plainUnit :
    (plainHeader directories files).HasColumns (plainUnit directories files) texts directories.columns files.columns := by
  obtain ⟨-, -, -, hle, hstop, -⟩ := tables_of_read (read_plainUnit hdirectories hfiles hshort)
  have hc := holds_plainUnit hdirectories hfiles hshort hstop
  have heval {α : Type} {read : Read α} {bytes rest : List UInt8} {a : α} (h : Reads read bytes a)
      (hbytes : directories.write ++ files.write = bytes ++ rest) :
      (plainHeader directories files).atTables (plainUnit directories files) read = .ok a := by
    rw [hbytes] at hc hshort
    have hleft := hc.left_eq
    rw [List.length_append] at hleft hshort
    rw [atTables_eq read hle hstop, eval, h _ rest hc]
    show 30 + bytes.length < 2 ^ 64
    omega
  refine ⟨five_le_five, ?_, ?_⟩
  · apply heval (reads_columns hdirectories.columns_lt)
    simp only [Description.write, List.append_assoc]
    rfl
  · apply heval ((reads_table hdirectories).discard.bind (reads_columns hfiles.columns_lt))
    simp only [Description.write, List.append_assoc]
    rfl

end

theorem not_tablesBounded_blank {directories files : Format} {m n : Nat} (first second : FileEntry)
    (hfirst : m ≠ 0 → readEntry ⟨5, 4⟩ texts ⟨"", 0⟩ directories.columns = pure first)
    (hsecond : n ≠ 0 → readEntry ⟨5, 4⟩ texts ⟨"", 0⟩ files.columns = pure second) (hcount : m + n = 2 ^ 20) :
    ∃ section' header, Header.read section' texts 0 = .ok header ∧
      header.HasColumns section' texts directories.columns files.columns ∧ ¬ header.TablesBounded section' := by
  -- three groups of seven bits are enough for the counts, so the tables stay short
  have hm : m < 128 ^ 3 := by omega
  have hn : n < 128 ^ 3 := by omega
  have hdirectories := directories.valid_blank (Nat.lt_trans hm (by decide)) hfirst
  have hfiles := files.valid_blank (Nat.lt_trans hn (by decide)) hsecond
  have hlength := directories.length_write_blank_le first hm
  have hlength' := files.length_write_blank_le second hn
  have hshort : ((directories.blank m first).write ++ (files.blank n second).write).length < 2 ^ 16 := by
    rw [List.length_append]
    omega
  refine ⟨_, _, read_plainUnit hdirectories hfiles hshort, hasColumns_plainUnit hdirectories hfiles hshort, ?_⟩
  intro hbounded
  have hle : m + n ≤ unitLength (plainUnit (directories.blank m first) (files.blank n second)) 0 := by
    simpa [Header.TablesBounded, plainHeader, Preamble.header, Format.blank] using hbounded
  rw [unitLength_plainUnit hdirectories hfiles hshort, List.length_append] at hle
  omega

theorem exists_not_tablesBounded {directories files : Format} (texts : TextSections)
    (h : ¬ (ColumnsWeigh directories.columns ∧ ColumnsWeigh files.columns)) :
    ∃ section' header, Header.read section' texts 0 = .ok header ∧
      header.HasColumns section' texts directories.columns files.columns ∧ ¬ header.TablesBounded section' := by
  by_cases hdirectories : ColumnsWeigh directories.columns
  · have hfiles : ¬ ColumnsWeigh files.columns := fun hfiles => h ⟨hdirectories, hfiles⟩
    obtain ⟨second, hsecond⟩ := readEntry_of_not_weigh ⟨5, 4⟩ texts hfiles ⟨"", 0⟩
    exact not_tablesBounded_blank ⟨"", 0⟩ second (fun hne => absurd rfl hne) (fun _ => hsecond) (Nat.zero_add _)
  · obtain ⟨first, hfirst⟩ := readEntry_of_not_weigh ⟨5, 4⟩ texts hdirectories ⟨"", 0⟩
    exact not_tablesBounded_blank first ⟨"", 0⟩ (fun _ => hfirst) (fun hne => absurd rfl hne) (Nat.add_zero _)

/--
The tables of old versions are never longer than their unit. Those of version 5 are bounded so exactly when
the columns of both weigh, whatever the header says besides.
-/
theorem tablesBounded_iff (directories files : Format) (texts : TextSections) :
    (∀ section' offset header, Header.read section' texts offset = .ok header → header.version < 5 →
        header.TablesBounded section') ∧
      ((∀ section' offset header, Header.read section' texts offset = .ok header →
          header.HasColumns section' texts directories.columns files.columns → header.TablesBounded section') ↔
        ColumnsWeigh directories.columns ∧ ColumnsWeigh files.columns) := by
  refine ⟨fun section' offset header hread hversion => tablesBounded_listed hread hversion, ?_, ?_⟩
  · intro hbounded
    by_contra hlight
    obtain ⟨section', header, hread, hcolumns, hlong⟩ := exists_not_tablesBounded texts hlight
    exact hlong (hbounded section' 0 header hread hcolumns)
  · rintro ⟨hdirectories, hfiles⟩ section' offset header hread hcolumns
    exact tablesBounded_described hread hcolumns hdirectories hfiles

/-- Directories with a path, and files with a path and a directory. -/
def pathFormat : Format := ⟨[⟨1, 0x8⟩], by decide⟩

def fileFormat : Format := ⟨[⟨1, 0x8⟩, ⟨2, 0xb⟩], by decide⟩

/-- A unit with one directory and one file in it. -/
def namedUnit : Bytes :=
  #[0x1d, 0, 0, 0, 5, 0, 4, 0, 0x15, 0, 0, 0, 1, 1, 1, 0xfb, 0x0e, 1, 1, 1, 8, 1, 0x61, 0, 2, 1, 8, 2, 0xb, 1, 0x62, 0, 0]

def namedHeader : Header :=
  { sampleHeader 0 33 33 with version := 5, directories := ["a"], files := [⟨"b", 0⟩] }

deriving instance DecidableEq for Column

theorem tablesBounded_namedUnit : Header.read namedUnit ⟨#[], #[]⟩ 0 = .ok namedHeader ∧
    namedHeader.HasColumns namedUnit ⟨#[], #[]⟩ pathFormat.columns fileFormat.columns ∧
      namedHeader.TablesBounded namedUnit := by
  have hread : Header.read namedUnit ⟨#[], #[]⟩ 0 = .ok namedHeader := ok_of_toOption (by decide +kernel)
  have hcolumns : namedHeader.HasColumns namedUnit ⟨#[], #[]⟩ pathFormat.columns fileFormat.columns :=
    ⟨by decide, ok_of_toOption (by decide +kernel), ok_of_toOption (by decide +kernel)⟩
  have hpath (rest : List Column) : ColumnsWeigh (⟨1, 0x8⟩ :: rest) := ⟨_, List.mem_cons_self, .inl rfl⟩
  have hbounded := (tablesBounded_iff pathFormat fileFormat ⟨#[], #[]⟩).2.mpr ⟨hpath _, hpath _⟩
  exact ⟨hread, hcolumns, hbounded _ _ _ hread hcolumns⟩

/-- A unit of 18 bytes whose tables have no columns, with 64 for the number of directories. -/
def lightUnit : Bytes :=
  #[0x12, 0, 0, 0, 5, 0, 4, 0, 0x0a, 0, 0, 0, 1, 1, 1, 0xfb, 0x0e, 1, 0, 0x40, 0, 0]

theorem not_tablesBounded_lightUnit : ¬ ∀ section' texts offset header,
    Header.read section' texts offset = .ok header → header.TablesBounded section' := by
  intro hbounded
  have hread : Header.read lightUnit ⟨#[], #[]⟩ 0 = .ok { sampleHeader 0 22 22 with
      version := 5, directories := List.replicate 64 "", files := [] } := ok_of_toOption (by decide +kernel)
  have hle := hbounded lightUnit ⟨#[], #[]⟩ 0 _ hread
  revert hle
  unfold Header.TablesBounded
  decide +kernel

end FirmwareDebug.LineTable
