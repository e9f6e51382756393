import FirmwareDebug.LineTable.Header
import FirmwareDebug.Proofs.Form
import FirmwareDebug.Proofs.Written

/-!
# Tables of directories and files that are written

Old versions list names, new ones describe the columns of a table in front of its entries. Reading gives
back what either of them holds.
-/

namespace FirmwareDebug.LineTable

open Leb128 Read

/-- A name that a zero byte can end. -/
structure IsName (name : String) : Prop where
  ne_empty : name ≠ ""
  zero_notMem : 0 ∉ name.toUTF8.data.toList

/-- A file of an old table, with the time and the length that nothing keeps. -/
structure ListedFile where
  name : String
  directory : UInt64
  time : UInt64
  length : UInt64

namespace ListedFile

def write (file : ListedFile) : List UInt8 :=
  writeText file.name ++
    (writeUnsigned file.directory.toNat ++ (writeUnsigned file.time.toNat ++ writeUnsigned file.length.toNat))

def entry (file : ListedFile) : FileEntry := ⟨file.name, file.directory⟩

end ListedFile

/-- A new table: its columns, and each entry with the bytes of its columns. -/
structure Description where
  columns : List Column
  entries : List (List UInt8 × FileEntry)

def Column.write (column : Column) : List UInt8 :=
  writeUnsigned column.content.toNat ++ writeUnsigned column.form.toNat

namespace Description

def write (table : Description) : List UInt8 :=
  [UInt8.ofNat table.columns.length] ++ (table.columns.flatMap Column.write ++
    (writeUnsigned table.entries.length ++ table.entries.flatMap Prod.fst))

/-- The numbers of columns and entries can be written, and the bytes of an entry give it. -/
structure Valid (encoding : Encoding) (texts : TextSections) (table : Description) : Prop where
  columns_lt : table.columns.length < 2 ^ 8
  entries_lt : table.entries.length < 2 ^ 64
  reads_entry : ∀ written ∈ table.entries, Reads (readEntry encoding texts ⟨"", 0⟩ table.columns) written.1 written.2

end Description

/-- The bytes are the tables of directories and files, as old and new versions write them. -/
inductive WritesTables (encoding : Encoding) (texts : TextSections) :
    List UInt8 → List String × List FileEntry → Prop
  | listed {directories : List String} {files : List ListedFile} (hversion : ¬ 5 ≤ encoding.version)
      (hdirectories : ∀ name ∈ directories, IsName name) (hfiles : ∀ file ∈ files, IsName file.name) :
      WritesTables encoding texts (directories.flatMap writeText ++ [0] ++ (files.flatMap ListedFile.write ++ [0]))
        (directories, files.map ListedFile.entry)
  | described {directories files : Description} (hversion : 5 ≤ encoding.version)
      (hdirectories : directories.Valid encoding texts) (hfiles : files.Valid encoding texts) :
      WritesTables encoding texts (directories.write ++ files.write)
        ((directories.entries.map Prod.snd).map FileEntry.name, files.entries.map Prod.snd)

variable {encoding : Encoding} {texts : TextSections}

theorem yields_name {name : String} (h : IsName name) : Yields readName (writeText name) (some name) := by
  have hname : ¬ name.isEmpty = true := by
    rw [String.isEmpty_iff]
    exact h.ne_empty
  have hread := (yields_text h.zero_notMem).map fun name => if name.isEmpty then none else some name
  rwa [if_neg hname] at hread

theorem yields_noName : Yields readName [0] none := by
  have hread : Yields text [0] "" := yields_text (s := "") (by decide)
  exact hread.map fun name => if name.isEmpty then none else some name

theorem yields_file {file : ListedFile} (h : IsName file.name) : Yields readFile file.write (some file.entry) := by
  apply (yields_name h).bind
  apply (yields_unsigned64 file.directory).bind
  apply (yields_unsigned64 file.time).discard.bind
  exact (yields_unsigned64 file.length).discard.map fun _ => some file.entry

theorem yields_noFile : Yields readFile [0] none := yields_noName.bind (.pure _)

theorem reads_column (column : Column) : Reads readColumn column.write column := by
  have hcode (code : UInt16) : Reads unsigned (writeUnsigned code.toNat) code.toUInt64 := by
    have hread := reads_unsigned64 code.toUInt64
    rwa [UInt16.toNat_toUInt64] at hread
  have hnarrow (code : UInt16) : ¬ 2 ^ 16 ≤ code.toUInt64.toNat := by
    have hlt := code.toNat_lt
    rw [UInt16.toNat_toUInt64]
    omega
  rw [Column.write, ← List.append_nil (writeUnsigned column.form.toNat)]
  apply (hcode column.content).bind
  apply (hcode column.form).bind
  rw [if_neg (hnarrow _), if_neg (hnarrow _), UInt16.toUInt16_toUInt64, UInt16.toUInt16_toUInt64]
  exact .pure column

theorem reads_columns {columns : List Column} (h : columns.length < 2 ^ 8) :
    Reads readColumns ([UInt8.ofNat columns.length] ++ columns.flatMap Column.write) columns := by
  have hcount : (UInt8.ofNat columns.length).toNat = columns.length := UInt8.toNat_ofNat_of_lt' h
  have htimes : Reads (times readColumn columns.length) (columns.flatMap Column.write)
      (columns.map fun column => column) := reads_times fun column _ => reads_column column
  rw [List.map_id'] at htimes
  apply (reads_byte _).bind
  rwa [hcount]

theorem reads_table {table : Description} (h : table.Valid encoding texts) :
    Reads (readTable encoding texts) table.write (table.entries.map Prod.snd) := by
  have hentries : Reads (do times (readEntry encoding texts ⟨"", 0⟩ table.columns) (← unsigned).toNat)
      (writeUnsigned table.entries.length ++ table.entries.flatMap Prod.fst) (table.entries.map Prod.snd) := by
    have hnumber := reads_unsigned64 (UInt64.ofNat table.entries.length)
    rw [UInt64.toNat_ofNat_of_lt' h.entries_lt] at hnumber
    apply hnumber.bind
    rw [UInt64.toNat_ofNat_of_lt' h.entries_lt]
    exact reads_times h.reads_entry
  rw [Description.write, ← List.append_assoc]
  exact (reads_columns h.columns_lt).bind hentries

theorem reads_tables {bytes : List UInt8} {value : List String × List FileEntry}
    (h : WritesTables encoding texts bytes value) : Reads (readTables encoding texts) bytes value := by
  unfold readTables
  cases h with
  | listed hversion hdirectories hfiles =>
    rw [if_neg hversion]
    have hnames := yields_untilNone (fun name hmem => yields_name (hdirectories name hmem))
      (fun name => by simp [writeText]) yields_noName
    rw [List.map_id'] at hnames
    have hlist := yields_untilNone (fun file hmem => yields_file (hfiles file hmem))
      (fun file => by simp [ListedFile.write, writeText]) yields_noFile
    exact (hnames.bind (hlist.map _)).reads
  | described hversion hdirectories hfiles =>
    rw [if_pos hversion]
    exact (reads_table hdirectories).bind ((reads_table hfiles).map _)

/-! ## Columns -/

variable {entry last : FileEntry} {columns : List Column} {bytes : List UInt8}

theorem reads_form {form : Form} (hform : form ≠ .indirect) {value : AttributeValue}
    (hread : Reads (form.readDirect encoding none) bytes value) : Reads (form.read encoding none) bytes value := by
  rwa [Form.read, Form.direct_of_ne hform, pure_bind]

theorem reads_textColumn {name : String} (hname : 0 ∉ name.toUTF8.data.toList)
    (hrest : Reads (readEntry encoding texts { entry with name } columns) bytes last) :
    Reads (readEntry encoding texts entry (⟨1, 0x8⟩ :: columns)) (writeText name ++ bytes) last := by
  have hvalue : Reads (Form.string.read encoding none) (writeText name) (.text name) :=
    reads_form (by decide) ((reads_text hname).map _)
  exact hvalue.bind hrest

theorem reads_lineTextColumn (offset : UInt32) {name : String}
    (hname : textAt ".debug_line_str" texts.lineText offset.toNat = .ok name)
    (hrest : Reads (readEntry encoding texts { entry with name } columns) bytes last) :
    Reads (readEntry encoding texts entry (⟨1, 0x1f⟩ :: columns)) (wordBytes offset ++ bytes) last := by
  have hvalue : Reads (Form.lineStrp.read encoding none) (wordBytes offset) (.lineTextOffset offset) :=
    reads_form (by decide) ((reads_word offset).map _)
  have hpath : Reads (pathText texts 0x1f (.lineTextOffset offset)) [] name := by
    rw [pathText, hname]
    exact .pure name
  apply hvalue.bind
  exact hpath.bind hrest

theorem reads_directoryColumn (directory : UInt64)
    (hrest : Reads (readEntry encoding texts { entry with directory } columns) bytes last) :
    Reads (readEntry encoding texts entry (⟨2, 0xf⟩ :: columns)) (writeUnsigned directory.toNat ++ bytes) last := by
  have hvalue : Reads (Form.udata.read encoding none) (writeUnsigned directory.toNat) (.constant directory) :=
    reads_form (by decide) ((reads_unsigned64 directory).map _)
  exact hvalue.bind hrest

end FirmwareDebug.LineTable
