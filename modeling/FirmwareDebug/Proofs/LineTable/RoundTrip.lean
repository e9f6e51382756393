import FirmwareDebug.Proofs.LineTable.WrittenHeader
import FirmwareDebug.Proofs.LineTable.WrittenProgram

/-!
# Writing a line table and reading it back

A unit of a line table is a header and the program for sequences of rows. Wherever it stands in a section
and whatever its version, the table gives back these rows.
-/

namespace FirmwareDebug.LineTable

open Read

def Preamble.isStatement (p : Preamble) : Bool := p.defaultIsStatement ≠ 0

/-- The section in which the unit of some sequences stands. -/
def Preamble.sectionOf (p : Preamble) (sequences : List Sequence) (front back : List UInt8) : Bytes :=
  (front ++ (p.write (writeProgram p.isStatement sequences) ++ back)).toArray

/--
Under every header that is accepted the rows are those that were written, each sequence with the row that
ends it. A header is accepted where its tables can be read, also with something between them and the
program.
-/
theorem rows_of_write (p : Preamble) (sequences : List Sequence) (front back : List UInt8) (texts : TextSections)
    (offset : UInt32) (hoffset : offset.toNat = front.length)
    (hshort : (p.body (writeProgram p.isStatement sequences)).length < 0xffffffff) :
    (∀ tables behind value, p.tables = tables ++ behind →
      WritesTables ⟨p.version, p.tableAddressSize⟩ texts tables value →
        ∃ header, Header.read (p.sectionOf sequences front back) texts offset = .ok header ∧
          (header.directories, header.files) = value) ∧
      ∀ header, Header.read (p.sectionOf sequences front back) texts offset = .ok header → ∀ directory,
        LineTable.rows ⟨header, p.sectionOf sequences front back, directory⟩ =
          .ok (sequences.flatMap (Sequence.rows p.isStatement)) := by
  constructor
  · intro tables behind value htables hvalue
    exact ⟨_, read_of_tables texts offset back hoffset hshort htables hvalue, rfl⟩
  · intro header hread directory
    obtain ⟨tables, rfl⟩ := header_of_read texts offset back hoffset hshort hread
    have hplace := offset.toNat_lt
    let before := front ++ (wordBytes (UInt32.ofNat (p.body (writeProgram p.isStatement sequences)).length) ++
      (p.lead ++ (p.parameters ++ p.tables)))
    have hsection : p.sectionOf sequences front back =
        (before ++ (writeProgram p.isStatement sequences ++ back)).toArray := by
      simp [before, Preamble.sectionOf, Preamble.write, Preamble.body]
    have hstart : p.start offset = before.length := by
      simp [before, Preamble.start, hoffset, wordBytes, length_littleEndianBytes, Nat.add_assoc]
    have hstop : p.stop offset (writeProgram p.isStatement sequences) =
        before.length + (writeProgram p.isStatement sequences).length := by
      simp [before, Preamble.stop, Preamble.body, hoffset, wordBytes, length_littleEndianBytes, Nat.add_assoc]
    rw [hsection]
    exact rows_written rfl rfl sequences back rfl hstart hstop (by
      simp only [Preamble.header, Preamble.stop]
      omega) directory

/-- A directory, and a file whose name stands in the section of line texts. -/
def sampleTables : List UInt8 :=
  Description.write ⟨[⟨1, 0x8⟩], [(writeText "src", ⟨"src", 0⟩)]⟩ ++
    Description.write ⟨[⟨1, 0x1f⟩, ⟨2, 0xf⟩], [(wordBytes 0 ++ Leb128.writeUnsigned 0, ⟨"main.c", 0⟩)]⟩

/-- A byte of padding stands between the tables and the program. -/
def samplePreamble : Preamble where
  version := 5
  addressSize := 4
  segmentSize := 0
  maximumOperations := 1
  defaultIsStatement := 1
  lineBase := 0xfb
  lineRange := 14
  operandCounts := [0, 1, 1, 1, 1, 0, 0, 0, 1, 0, 0, 1]
  tables := sampleTables ++ [0xff]
  version_ge := by decide
  version_le := by decide
  lineRange_ne := by decide
  length_operandCounts := rfl

/-- Lines go back, a row is no statement, the second sequence starts below the first one and the third is empty. -/
def sampleSequences : List Sequence :=
  [⟨[⟨0x08000100, 0, 300, 5, true⟩, ⟨0x08000104, 0, 12, 0, false⟩], 0x08000110⟩,
    ⟨[⟨0x08000000, 1, 7, 1, true⟩], 0x08000002⟩, ⟨[], 4⟩]

def sampleTexts : TextSections := ⟨#[], (writeText "main.c" ++ []).toArray⟩

theorem writesTables_sample : WritesTables ⟨5, 4⟩ sampleTexts sampleTables (["src"], [⟨"main.c", 0⟩]) := by
  have hdirectories : 0 ∉ "src".toUTF8.data.toList := by decide
  have hfiles : 0 ∉ "main.c".toUTF8.data.toList := by decide
  have hname : textAt ".debug_line_str" sampleTexts.lineText 0 = .ok "main.c" :=
    textAt_written ".debug_line_str" [] [] hfiles (by decide)
  refine .described (by decide) ⟨by decide, by decide, ?_⟩ ⟨by decide, by decide, ?_⟩
  · rw [List.forall_mem_singleton]
    exact reads_textColumn hdirectories (.pure _)
  · rw [List.forall_mem_singleton]
    have hdirectory : Reads (readEntry ⟨5, 4⟩ sampleTexts ⟨"main.c", 0⟩ [⟨2, 0xf⟩]) (Leb128.writeUnsigned 0 ++ [])
        ⟨"main.c", 0⟩ := reads_directoryColumn 0 (.pure _)
    rw [List.append_nil] at hdirectory
    exact reads_lineTextColumn 0 hname hdirectory

theorem rows_of_write_sample :
    (2 : UInt32).toNat = [0xaa, 0xbb].length ∧
      (samplePreamble.body (writeProgram samplePreamble.isStatement sampleSequences)).length < 0xffffffff ∧
      ∃ header, Header.read (samplePreamble.sectionOf sampleSequences [0xaa, 0xbb] [0xcc]) sampleTexts 2 = .ok header ∧
        header.files = [⟨"main.c", 0⟩] ∧
        LineTable.rows ⟨header, samplePreamble.sectionOf sampleSequences [0xaa, 0xbb] [0xcc], none⟩ =
          .ok [{ address := 0x08000100, file := 0, line := 300, column := 5, isStatement := true },
            { address := 0x08000104, file := 0, line := 12, isStatement := false },
            { address := 0x08000110, file := 0, line := 12, isStatement := false, endSequence := true },
            { address := 0x08000000, line := 7, column := 1, isStatement := true },
            { address := 0x08000002, line := 7, column := 1, isStatement := true, endSequence := true },
            { address := 4, isStatement := true, endSequence := true }] := by
  have hshort :
      (samplePreamble.body (writeProgram samplePreamble.isStatement sampleSequences)).length < 0xffffffff := by
    decide +kernel
  have hsample := rows_of_write samplePreamble sampleSequences [0xaa, 0xbb] [0xcc] sampleTexts 2 rfl hshort
  obtain ⟨header, hread, htables⟩ := hsample.1 sampleTables [0xff] _ rfl writesTables_sample
  exact ⟨rfl, hshort, header, hread, congrArg Prod.snd htables, hsample.2 header hread none⟩

end FirmwareDebug.LineTable
