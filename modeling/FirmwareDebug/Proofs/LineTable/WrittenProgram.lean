import FirmwareDebug.LineTable.Lookup
import FirmwareDebug.Proofs.Written

/-!
# Line programs that are written

Sequences of rows are written as instructions that carry out only what changes from one row to the
next. The instructions are read back from their bytes and give the same rows.
-/

namespace FirmwareDebug.LineTable

open Leb128

/-! ## Instructions -/

namespace Instruction

open Read

/-- The bytes of an instruction where the standard opcodes end at 12. -/
def write : Instruction → List UInt8
  | .special opcode => [13 + opcode]
  | .copy => [1]
  | .advancePc operations => 2 :: writeUnsigned operations.toNat
  | .advanceLine lines => 3 :: writeSigned lines.toInt
  | .setFile file => 4 :: writeUnsigned file.toNat
  | .setColumn column => 5 :: writeUnsigned column.toNat
  | .negateStatement => [6]
  | .setBasicBlock => [7]
  | .constAddPc => [8]
  | .fixedAdvancePc bytes => 9 :: littleEndianBytes 2 bytes.toNat
  | .setPrologueEnd => [10]
  | .setEpilogueBegin => [11]
  | .setIsa isa => 12 :: writeUnsigned isa.toNat
  | .endSequence => [0, 1, 1]
  | .setAddress address => 0 :: 5 :: 2 :: wordBytes address
  | .setDiscriminator discriminator =>
    let body := 4 :: writeUnsigned discriminator.toNat
    0 :: UInt8.ofNat body.length :: body
  | .pass => [0, 0]

/-- Special opcodes end where a byte does. -/
def Writable : Instruction → Prop
  | .special opcode => opcode < 243
  | _ => True

theorem write_ne_nil (instruction : Instruction) : instruction.write ≠ [] := by
  cases instruction <;> simp [write]

variable {header : Header} {instruction : Instruction} {bytes : List UInt8}

theorem reads_below {opcode : UInt8} (hopcode : opcode < header.opcodeBase)
    (hread : Reads (readStandard header opcode) bytes instruction) :
    Reads (read header) (opcode :: bytes) instruction := by
  apply Reads.bind (reads_byte opcode)
  rwa [if_neg (UInt8.not_le.mpr hopcode)]

theorem reads_standard (hbase : header.opcodeBase = 13) {opcode : UInt8} (hopcode : opcode < 13)
    (hread : Reads (readStandard header opcode) bytes instruction) :
    Reads (read header) (opcode :: bytes) instruction := reads_below (hbase ▸ hopcode) hread

theorem reads_special {opcode : UInt8} (hopcode : header.opcodeBase ≤ opcode) :
    Reads (read header) [opcode] (.special (opcode - header.opcodeBase)) := by
  apply Reads.bind (reads_byte opcode)
  rw [if_pos hopcode]
  exact .pure _

theorem reads_length {length : Nat} (hlength : length < 128) :
    Reads unsigned [UInt8.ofNat length] (UInt64.ofNat length) := by
  have hbyte : (UInt8.ofNat length).toNat = length := UInt8.toNat_ofNat_of_lt' (by simp only [UInt8.size]; omega)
  have hgroups := UnsignedGroups.last (b := UInt8.ofNat length) (by omega)
  rw [hbyte] at hgroups
  exact reads_unsigned hgroups (by simp) (by omega)

theorem reads_extended (hlength : bytes.length < 128) (hne : bytes ≠ [])
    (hread : Reads (readExtendedBody bytes.length) bytes instruction) :
    Reads readExtended (UInt8.ofNat bytes.length :: bytes) instruction := by
  intro c rest hc hplace
  have hpositive := List.length_pos_of_ne_nil hne
  have hvalue : (UInt64.ofNat bytes.length).toNat = bytes.length :=
    UInt64.toNat_ofNat_of_lt' (by simp only [UInt64.size]; omega)
  have hlong : ¬ UInt64.ofNat bytes.length = 0 := by
    intro hzero
    rw [hzero] at hvalue
    simp at hvalue
    omega
  rw [List.length_cons] at hplace
  rw [List.cons_append, ← List.singleton_append] at hc
  have hnext : (c.advance 1).Holds (bytes ++ rest) := hc.advance
  unfold readExtended
  rw [(reads_length hlength).run_bind hc (by simp only [List.length_singleton]; omega), if_neg hlong, run_bind,
    show position _ = .ok _ _ from rfl]
  simp only [hvalue, List.length_singleton]
  rw [if_neg (by simp only [Cursor.advance]; omega), hread.run_bind hnext (by simp only [Cursor.advance]; omega),
    List.length_cons, Nat.add_comm bytes.length, ← Cursor.advance_advance]
  rfl

theorem reads_addressBody (address : UInt32) :
    Reads (readExtendedBody 5) (2 :: wordBytes address) (.setAddress address) := by
  have hnumber : Reads (number 4) (wordBytes address) address.toNat := reads_number address.toNat_lt
  have hvalue : UInt64.ofNat address.toNat = address.toUInt64 := by simp
  have hsized : Reads (sized 4) (wordBytes address) (UInt64.ofNat address.toNat) := hnumber.map UInt64.ofNat
  rw [hvalue] at hsized
  have hbody := hsized.map fun value => setAddress value.toUInt32
  rw [UInt32.toUInt32_toUInt64] at hbody
  exact Reads.bind (reads_byte 2) hbody

theorem reads_write (hbase : header.opcodeBase = 13) (hwritable : instruction.Writable) :
    Reads (read header) instruction.write instruction := by
  cases instruction with
  | special opcode =>
    have hopcode : opcode < 243 := hwritable
    have hstart : header.opcodeBase ≤ 13 + opcode := by
      rw [hbase]
      simp only [UInt8.le_iff_toNat_le, UInt8.lt_iff_toNat_lt, UInt8.toNat_add] at hopcode ⊢
      simp at hopcode ⊢
      omega
    have hread := reads_special hstart
    rwa [hbase, UInt8.add_comm, UInt8.add_sub_cancel, UInt8.add_comm] at hread
  | copy => exact reads_standard hbase (by decide) (.pure _)
  | advancePc operations => exact reads_standard hbase (by decide) ((reads_unsigned32 operations).map _)
  | advanceLine lines => exact reads_standard hbase (by decide) ((reads_signed32 lines).map _)
  | setFile file => exact reads_standard hbase (by decide) ((reads_unsigned32 file).map _)
  | setColumn column => exact reads_standard hbase (by decide) ((reads_unsigned32 column).map _)
  | negateStatement => exact reads_standard hbase (by decide) (.pure _)
  | setBasicBlock => exact reads_standard hbase (by decide) (.pure _)
  | constAddPc => exact reads_standard hbase (by decide) (.pure _)
  | fixedAdvancePc bytes => exact reads_standard hbase (by decide) ((reads_half bytes).map _)
  | setPrologueEnd => exact reads_standard hbase (by decide) (.pure _)
  | setEpilogueBegin => exact reads_standard hbase (by decide) (.pure _)
  | setIsa isa => exact reads_standard hbase (by decide) ((reads_unsigned32 isa).map _)
  | endSequence =>
    have hbody : Reads (readExtendedBody 1) [1] endSequence := Reads.bind (reads_byte 1) (.pure _)
    exact reads_standard hbase (by decide) (reads_extended (by simp) (by simp) hbody)
  | setAddress address =>
    have hlength : (2 :: wordBytes address).length = 5 := by simp [wordBytes, length_littleEndianBytes]
    have hbody := reads_addressBody address
    rw [← hlength] at hbody
    have hextended := reads_extended (by omega) (by simp) hbody
    rw [hlength] at hextended
    exact reads_standard hbase (by decide) hextended
  | setDiscriminator discriminator =>
    have hshort : (writeUnsigned discriminator.toNat).length ≤ 5 :=
      length_writeUnsigned (Nat.lt_trans discriminator.toNat_lt (by omega)) (by omega)
    have hbody : Reads (readExtendedBody (4 :: writeUnsigned discriminator.toNat).length)
        (4 :: writeUnsigned discriminator.toNat) (setDiscriminator discriminator) :=
      Reads.bind (reads_byte 4) ((reads_unsigned32 discriminator).map _)
    exact reads_standard hbase (by decide) (reads_extended (by simp only [List.length_cons]; omega) (by simp) hbody)
  | pass =>
    have hzero : Reads unsigned [0] 0 := reads_length (by omega : 0 < 128)
    exact reads_standard hbase (by decide) (Reads.bind hzero (.pure _))

end Instruction

/-! ## Sequences -/

structure Place where
  address : UInt32
  file : UInt32
  line : UInt32
  column : UInt32
  isStatement : Bool

/-- Rows in turn, and the address behind the last of them. -/
structure Sequence where
  places : List Place
  stop : UInt32

namespace Place

def row (place : Place) : Row :=
  { address := place.address, file := place.file, line := place.line, column := place.column,
    isStatement := place.isStatement }

def initial (isStatement : Bool) : Place := ⟨0, 1, 1, 0, isStatement⟩

def endRow (last : Place) (stop : UInt32) : Row := { last.row with address := stop, endSequence := true }

/-- An instruction that is written only where something changes. -/
def onlyIf (changed : Bool) (instruction : Instruction) : List Instruction := if changed then [instruction] else []

/-- The instructions that lead from one place to the next. Differences of addresses and lines wrap. -/
def movesTo (source target : Place) : List Instruction :=
  onlyIf (source.address ≠ target.address) (.advancePc (target.address - source.address)) ++
    onlyIf (source.line ≠ target.line) (.advanceLine (target.line - source.line).toInt32) ++
    onlyIf (source.file ≠ target.file) (.setFile target.file) ++
    onlyIf (source.column ≠ target.column) (.setColumn target.column) ++
    onlyIf (source.isStatement ≠ target.isStatement) .negateStatement

/-- The instructions for the places behind one and for the end of the sequence. -/
def trail (source : Place) (stop : UInt32) : List Place → List Instruction
  | [] => source.movesTo { source with address := stop } ++ [.endSequence]
  | target :: places => source.movesTo target ++ .copy :: target.trail stop places

end Place

namespace Sequence

def start (s : Sequence) : UInt32 := (s.places.head?.map Place.address).getD s.stop

/-- The instructions of a sequence, from the registers at its start on. -/
def instructions (isStatement : Bool) (s : Sequence) : List Instruction :=
  .setAddress s.start :: Place.trail { Place.initial isStatement with address := s.start } s.stop s.places

def rows (isStatement : Bool) (s : Sequence) : List Row :=
  s.places.map Place.row ++ [(s.places.getLastD (.initial isStatement)).endRow s.stop]

end Sequence

section

variable {header : Header}

theorem rowsFrom_onlyIf {row next : Row} {changed : Bool} {instruction : Instruction}
    (hsame : changed = false → row = next) (hstep : changed = true → step header row instruction = (next, none))
    (rest : List Instruction) :
    rowsFrom header row (Place.onlyIf changed instruction ++ rest) = rowsFrom header next rest := by
  cases changed with
  | false => rw [hsame rfl]; rfl
  | true => simp only [Place.onlyIf, if_pos, List.singleton_append, rowsFrom, hstep]

/-- One register after the other takes the value that it has at the target. -/
theorem rowsFrom_movesTo (hlength : header.minimumInstructionLength = 1) (source target : Place)
    (rest : List Instruction) :
    rowsFrom header source.row (source.movesTo target ++ rest) = rowsFrom header target.row rest := by
  obtain ⟨address, file, line, column, isStatement⟩ := source
  obtain ⟨address', file', line', column', isStatement'⟩ := target
  have haddress : step header (Place.row ⟨address, file, line, column, isStatement⟩)
      (.advancePc (address' - address)) = (Place.row ⟨address', file, line, column, isStatement⟩, none) := by
    have hmoved : address + (address' - address) = address' := by rw [UInt32.add_comm, UInt32.sub_add_cancel]
    simp [step, Row.advanceBy, Place.row, hlength, hmoved]
  have hline : step header (Place.row ⟨address', file, line, column, isStatement⟩)
      (.advanceLine (line' - line).toInt32) = (Place.row ⟨address', file, line', column, isStatement⟩, none) := by
    have hmoved : line + (line' - line) = line' := by rw [UInt32.add_comm, UInt32.sub_add_cancel]
    simp [step, Row.advanceLineBy, Place.row, hmoved]
  have hfile : step header (Place.row ⟨address', file, line', column, isStatement⟩) (.setFile file') =
      (Place.row ⟨address', file', line', column, isStatement⟩, none) := rfl
  have hcolumn : step header (Place.row ⟨address', file', line', column, isStatement⟩) (.setColumn column') =
      (Place.row ⟨address', file', line', column', isStatement⟩, none) := rfl
  have hstatement (h : isStatement ≠ isStatement') :
      step header (Place.row ⟨address', file', line', column', isStatement⟩) .negateStatement =
        (Place.row ⟨address', file', line', column', isStatement'⟩, none) := by
    simp [step, Place.row, Bool.not_eq.mpr h]
  simp only [Place.movesTo, List.append_assoc]
  rw [rowsFrom_onlyIf (by simp [Place.row]) fun _ => haddress, rowsFrom_onlyIf (by simp [Place.row]) fun _ => hline,
    rowsFrom_onlyIf (by simp [Place.row]) fun _ => hfile, rowsFrom_onlyIf (by simp [Place.row]) fun _ => hcolumn,
    rowsFrom_onlyIf (by simp [Place.row]) fun h => hstatement (by simpa using h)]

theorem rowsFrom_trail (hlength : header.minimumInstructionLength = 1) (source : Place) (stop : UInt32)
    (places : List Place) (rest : List Instruction) :
    rowsFrom header source.row (source.trail stop places ++ rest) =
      places.map Place.row ++ (places.getLastD source).endRow stop :: rowsFrom header (.initial header) rest := by
  induction places generalizing source with
  | nil =>
    rw [Place.trail, List.append_assoc, rowsFrom_movesTo hlength]
    rfl
  | cons target places ih =>
    rw [Place.trail, List.append_assoc, rowsFrom_movesTo hlength, List.cons_append]
    simp only [rowsFrom, step, List.map_cons, List.cons_append, List.getLastD_cons]
    rw [← ih target]
    rfl

theorem rowsFrom_instructions (hlength : header.minimumInstructionLength = 1) (s : Sequence)
    (rest : List Instruction) :
    rowsFrom header (.initial header) (s.instructions header.defaultIsStatement ++ rest) =
      s.rows header.defaultIsStatement ++ rowsFrom header (.initial header) rest := by
  have htrail := rowsFrom_trail hlength { Place.initial header.defaultIsStatement with address := s.start } s.stop
    s.places rest
  -- The address that is set first does not show in the last row, which has its own.
  have hlast : (s.places.getLastD { Place.initial header.defaultIsStatement with address := s.start }).endRow s.stop =
      (s.places.getLastD (.initial header.defaultIsStatement)).endRow s.stop := by
    cases s.places with
    | nil => rfl
    | cons place places => rfl
  simp only [Sequence.instructions, Sequence.rows, List.cons_append, List.append_assoc, List.nil_append, rowsFrom,
    step]
  rw [← hlast, ← htrail]
  rfl

theorem rowsFrom_program (hlength : header.minimumInstructionLength = 1) (sequences : List Sequence) :
    rowsFrom header (.initial header) (sequences.flatMap (Sequence.instructions header.defaultIsStatement)) =
      sequences.flatMap (Sequence.rows header.defaultIsStatement) := by
  induction sequences with
  | nil => rfl
  | cons s sequences ih => rw [List.flatMap_cons, List.flatMap_cons, rowsFrom_instructions hlength, ih]

theorem writable_onlyIf (changed : Bool) {instruction : Instruction} (h : instruction.Writable) :
    ∀ written ∈ Place.onlyIf changed instruction, written.Writable := by
  cases changed with
  | false => simp [Place.onlyIf]
  | true => simpa [Place.onlyIf] using h

theorem writable_movesTo (source target : Place) :
    ∀ instruction ∈ source.movesTo target, instruction.Writable := by
  simp only [Place.movesTo, List.forall_mem_append]
  refine ⟨⟨⟨⟨?_, ?_⟩, ?_⟩, ?_⟩, ?_⟩
  all_goals exact writable_onlyIf _ trivial

theorem writable_trail (source : Place) (stop : UInt32) (places : List Place) :
    ∀ instruction ∈ source.trail stop places, instruction.Writable := by
  induction places generalizing source with
  | nil =>
    simp only [Place.trail, List.forall_mem_append, List.forall_mem_singleton]
    exact ⟨writable_movesTo _ _, trivial⟩
  | cons target places ih =>
    simp only [Place.trail, List.forall_mem_append, List.forall_mem_cons]
    exact ⟨writable_movesTo _ _, trivial, ih target⟩

theorem writable_instructions (isStatement : Bool) (s : Sequence) :
    ∀ instruction ∈ s.instructions isStatement, instruction.Writable := by
  rw [Sequence.instructions, List.forall_mem_cons]
  exact ⟨trivial, writable_trail _ _ _⟩

/-! ## Programs in a section -/

def writeProgram (isStatement : Bool) (sequences : List Sequence) : List UInt8 :=
  (sequences.flatMap (Sequence.instructions isStatement)).flatMap Instruction.write

theorem instructions_of_items {ι : Type} {write : ι → List UInt8} {value : ι → Instruction} {items : List ι}
    (hitem : ∀ item ∈ items, Read.Reads (Instruction.read header) (write item) (value item) ∧ write item ≠ [])
    {before : List UInt8} (back : List UInt8) (hstart : header.start = before.length)
    (hstop : header.stop = before.length + (items.flatMap write).length) (hplace : header.stop < 2 ^ 64) :
    header.instructions (before ++ (items.flatMap write ++ back)).toArray = .ok ⟨items.map value, none⟩ := by
  have hcount : header.stop - header.start = (items.flatMap write).length := by omega
  have hc := Cursor.Holds.place region before (items.flatMap write ++ back)
  obtain ⟨inner, hwithin, hinner, -, hlimit⟩ := Read.within_of_holds hc
  have hprogram := Decoded.ofCursor_written hitem hinner (by
    rw [hlimit]
    simp only [Cursor.place]
    omega)
  unfold Header.instructions Read.eval
  rw [hcount, hstart, hwithin]
  simp only [bind, Except.bind, hprogram]
  rfl

theorem instructions_written (hbase : header.opcodeBase = 13) {instructions : List Instruction}
    (hwritable : ∀ instruction ∈ instructions, instruction.Writable) {before : List UInt8} (back : List UInt8)
    (hstart : header.start = before.length)
    (hstop : header.stop = before.length + (instructions.flatMap Instruction.write).length)
    (hplace : header.stop < 2 ^ 64) :
    header.instructions (before ++ (instructions.flatMap Instruction.write ++ back)).toArray =
      .ok ⟨instructions, none⟩ := by
  have hitem : ∀ instruction ∈ instructions,
      Read.Reads (Instruction.read header) instruction.write instruction ∧ instruction.write ≠ [] := by
    intro instruction hmem
    exact ⟨Instruction.reads_write hbase (hwritable instruction hmem), instruction.write_ne_nil⟩
  have hread := instructions_of_items hitem back hstart hstop hplace
  rwa [List.map_id'] at hread

theorem rows_written (hbase : header.opcodeBase = 13) (hlength : header.minimumInstructionLength = 1)
    (sequences : List Sequence) {before program : List UInt8} (back : List UInt8)
    (hprogram : program = writeProgram header.defaultIsStatement sequences)
    (hstart : header.start = before.length) (hstop : header.stop = before.length + program.length)
    (hplace : header.stop < 2 ^ 64) (directory : Option String) :
    LineTable.rows ⟨header, (before ++ (program ++ back)).toArray, directory⟩ =
      .ok (sequences.flatMap (Sequence.rows header.defaultIsStatement)) := by
  subst hprogram
  have hwritable : ∀ instruction ∈ sequences.flatMap (Sequence.instructions header.defaultIsStatement),
      instruction.Writable := by
    intro instruction hmem
    obtain ⟨s, -, hinstruction⟩ := List.mem_flatMap.mp hmem
    exact writable_instructions header.defaultIsStatement s instruction hinstruction
  have hread : header.instructions (before ++ (writeProgram header.defaultIsStatement sequences ++ back)).toArray = _ :=
    instructions_written hbase hwritable back hstart hstop hplace
  unfold LineTable.rows LineTable.decodedRows
  rw [hread]
  simp only [bind, Except.bind, rowsFrom_program hlength]
  rfl

end

end FirmwareDebug.LineTable
