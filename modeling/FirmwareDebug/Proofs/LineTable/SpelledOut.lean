import FirmwareDebug.Proofs.LineTable.WrittenProgram

/-!
# Special opcodes spelled out

A special opcode stands for two advances and a row, and the constant advance for the advance of the last
special opcode. A program in which each of them is replaced by what it stands for gives the same rows.
-/

namespace FirmwareDebug.LineTable

open Leb128 Read

/-- An instruction in a program: its bytes are read as it, whatever comes behind them. -/
structure Coded (header : Header) where
  bytes : List UInt8
  instruction : Instruction
  reads : Reads (Instruction.read header) bytes instruction

variable {header : Header}

/-! ## Operands -/

theorem toNat_adjusted {s : UInt8} (hs : header.opcodeBase ≤ s) :
    (s - header.opcodeBase).toNat = s.toNat - header.opcodeBase.toNat :=
  UInt8.toNat_sub_of_le _ _ hs

theorem operationAdvance_eq {s : UInt8} (hs : header.opcodeBase ≤ s) :
    header.operationAdvance (s - header.opcodeBase) =
      UInt32.ofNat ((s.toNat - header.opcodeBase.toNat) / header.lineRange.toNat) := by
  apply UInt32.toNat_inj.mp
  have hlt := (s - header.opcodeBase).toNat_lt
  have hquotient := Nat.div_le_self (s.toNat - header.opcodeBase.toNat) header.lineRange.toNat
  rw [toNat_adjusted hs] at hlt
  rw [Header.operationAdvance, UInt8.toNat_toUInt32, UInt8.toNat_div, toNat_adjusted hs,
    UInt32.toNat_ofNat_of_lt' (by simp only [UInt32.size]; omega)]

theorem lineAdvance_eq {s : UInt8} (hs : header.opcodeBase ≤ s) :
    header.lineAdvance (s - header.opcodeBase) =
      Int32.ofInt (header.lineBase.toInt + ((s.toNat - header.opcodeBase.toNat) % header.lineRange.toNat : Nat)) := by
  have hremainder : ((s - header.opcodeBase) % header.lineRange).toUInt32.toInt32 =
      Int32.ofInt ((s.toNat - header.opcodeBase.toNat) % header.lineRange.toNat : Nat) := by
    rw [← UInt32.ofNat_uInt8ToNat, UInt32.toInt32_ofNat', UInt8.toNat_mod, toNat_adjusted hs, Int32.ofInt_eq_ofNat]
  rw [Header.lineAdvance, hremainder, ← Int32.ofInt_int8ToInt, ← Int32.ofInt_add]

/-! ## Programs spelled out -/

/--
Each special opcode of the program is replaced by the instructions that it stands for, and so is each constant
advance. All else keeps its bytes.
-/
inductive SpellsOut : List (Coded header) → List (Coded header) → Prop
  | nil : SpellsOut [] []
  | special {code advancePc advanceLine copy : Coded header} {s : UInt8} {program spelled : List (Coded header)}
      (hcode : code.bytes = [s]) (hs : header.opcodeBase ≤ s)
      (hpc : advancePc.instruction =
        .advancePc (.ofNat ((s.toNat - header.opcodeBase.toNat) / header.lineRange.toNat)))
      (hline : advanceLine.instruction = .advanceLine
        (.ofInt (header.lineBase.toInt + ((s.toNat - header.opcodeBase.toNat) % header.lineRange.toNat : Nat))))
      (hcopy : copy.instruction = .copy) (rest : SpellsOut program spelled) :
      SpellsOut (code :: program) (advancePc :: advanceLine :: copy :: spelled)
  | constAddPc {code advancePc : Coded header} {program spelled : List (Coded header)}
      (hcode : code.bytes = [8]) (hbase : 8 < header.opcodeBase)
      (hpc : advancePc.instruction =
        .advancePc (.ofNat ((255 - header.opcodeBase.toNat) / header.lineRange.toNat)))
      (rest : SpellsOut program spelled) : SpellsOut (code :: program) (advancePc :: spelled)
  | kept {code : Coded header} {program spelled : List (Coded header)}
      (hspecial : ∀ s, header.opcodeBase ≤ s → code.bytes ≠ [s])
      (hconst : 8 < header.opcodeBase → code.bytes ≠ [8]) (rest : SpellsOut program spelled) :
      SpellsOut (code :: program) (code :: spelled)

namespace Coded

theorem instruction_eq {code : Coded header} {s : UInt8} {instruction : Instruction} (hcode : code.bytes = [s])
    (h : Reads (Instruction.read header) [s] instruction) : code.instruction = instruction := by
  have hcursor := Cursor.Holds.place "" [] ([s] ++ [])
  have hread := code.reads
  rw [hcode] at hread
  have hsame := (hread _ _ hcursor (by simp [Cursor.place])).symm.trans (h _ _ hcursor (by simp [Cursor.place]))
  injection hsame

theorem bytes_ne_nil (code : Coded header) : code.bytes ≠ [] := by
  intro hempty
  have hread := code.reads
  rw [hempty] at hread
  have hrun := hread (.place "" #[] 0) [] (.place "" [] []) (by simp [Cursor.place])
  cases hrun

variable (hbase : 4 ≤ header.opcodeBase)
include hbase

theorem lt_opcodeBase {opcode : UInt8} (h : opcode < 4) : opcode < header.opcodeBase :=
  UInt8.lt_of_lt_of_le h hbase

def advancePc (operations : UInt32) : Coded header where
  bytes := 2 :: writeUnsigned operations.toNat
  instruction := .advancePc operations
  reads := Instruction.reads_below (lt_opcodeBase hbase (by decide)) ((reads_unsigned32 operations).map _)

def advanceLine (lines : Int32) : Coded header where
  bytes := 3 :: writeSigned lines.toInt
  instruction := .advanceLine lines
  reads := Instruction.reads_below (lt_opcodeBase hbase (by decide)) ((reads_signed32 lines).map _)

def copy : Coded header where
  bytes := [1]
  instruction := .copy
  reads := Instruction.reads_below (lt_opcodeBase hbase (by decide)) (.pure _)

theorem exists_spellsOut (program : List (Coded header)) : ∃ spelled, SpellsOut program spelled := by
  induction program with
  | nil => exact ⟨[], .nil⟩
  | cons code program ih =>
    obtain ⟨spelled, hspelled⟩ := ih
    by_cases hspecial : ∃ s, header.opcodeBase ≤ s ∧ code.bytes = [s]
    · obtain ⟨s, hs, hcode⟩ := hspecial
      exact ⟨advancePc hbase _ :: advanceLine hbase _ :: copy hbase :: spelled, .special hcode hs rfl rfl rfl hspelled⟩
    by_cases hconst : 8 < header.opcodeBase ∧ code.bytes = [8]
    · exact ⟨advancePc hbase _ :: spelled, .constAddPc hconst.2 hconst.1 rfl hspelled⟩
    · refine ⟨code :: spelled, .kept ?_ ?_ hspelled⟩
      · intro s hs hcode
        exact hspecial ⟨s, hs, hcode⟩
      · intro hlt hcode
        exact hconst ⟨hlt, hcode⟩

end Coded

/-- What is spelled out leads to the same registers, and adds the same row. -/
theorem SpellsOut.rowsFrom_eq {program spelled : List (Coded header)} (h : SpellsOut program spelled) (row : Row) :
    rowsFrom header row (spelled.map Coded.instruction) = rowsFrom header row (program.map Coded.instruction) := by
  induction h generalizing row with
  | nil => rfl
  | special hcode hs hpc hline hcopy _ ih =>
    have hspecial := Coded.instruction_eq hcode (Instruction.reads_special hs)
    simp only [List.map_cons, hspecial, hpc, hline, hcopy, rowsFrom, step, ih, operationAdvance_eq hs,
      lineAdvance_eq hs]
  | constAddPc hcode hbase hpc _ ih =>
    have hconst := Coded.instruction_eq hcode (Instruction.reads_below hbase (.pure Instruction.constAddPc))
    have hlast : header.opcodeBase ≤ 255 := UInt8.le_iff_toNat_le.mpr (Nat.le_of_lt_succ header.opcodeBase.toNat_lt)
    have hadvance := operationAdvance_eq hlast
    simp only [List.map_cons, hconst, hpc, rowsFrom, step, ih, hadvance]
    rfl
  | kept _ _ _ ih => simp only [List.map_cons, rowsFrom, ih]

/-! ## Programs in a section -/

/-- The header of a program that stands elsewhere. -/
def Header.placed (header : Header) (start stop : Nat) : Header := { header with start, stop }

@[simp]
theorem rowsFrom_placed (start stop : Nat) (row : Row) (instructions : List Instruction) :
    rowsFrom (header.placed start stop) row instructions = rowsFrom header row instructions := by
  induction instructions generalizing row with
  | nil => rfl
  | cons instruction instructions ih =>
    simp only [rowsFrom, ih]
    rfl

/-- The line table whose program is the bytes between two parts of a section. -/
def Header.tableOf (header : Header) (front program back : List UInt8) (directory : Option String) : LineTable where
  header := header.placed front.length (front.length + program.length)
  bytes := (front ++ (program ++ back)).toArray
  compilationDirectory := directory

theorem rows_tableOf (program : List (Coded header)) (front back : List UInt8) (directory : Option String)
    (hplace : front.length + (program.flatMap Coded.bytes).length < 2 ^ 64) :
    LineTable.rows (header.tableOf front (program.flatMap Coded.bytes) back directory) =
      .ok (rowsFrom header (.initial header) (program.map Coded.instruction)) := by
  let table := header.tableOf front (program.flatMap Coded.bytes) back directory
  have hitem : ∀ code ∈ program, Reads (Instruction.read table.header) code.bytes code.instruction ∧ code.bytes ≠ [] :=
    fun code _ => ⟨code.reads, code.bytes_ne_nil⟩
  have hread : table.header.instructions table.bytes = .ok ⟨program.map Coded.instruction, none⟩ :=
    instructions_of_items hitem back rfl rfl hplace
  have hdecoded : table.decodedRows =
      .ok ⟨rowsFrom header (.initial header) (program.map Coded.instruction), none⟩ := by
    rw [LineTable.decodedRows, hread]
    exact congrArg (fun rows => Except.ok (Decoded.mk rows none)) (rowsFrom_placed _ _ _ _)
  show LineTable.rows table = _
  rw [LineTable.rows, hdecoded]
  rfl

/--
Every program can be spelled out, and however this is done, with whatever encoding of the operands and at
whatever place of a section, the table has the same rows.
-/
theorem rows_spelledOut (hbase : 4 ≤ header.opcodeBase) (program : List (Coded header)) :
    (∃ spelled, SpellsOut program spelled) ∧
      ∀ spelled, SpellsOut program spelled → ∀ front back front' back' directory directory',
        front.length + (program.flatMap Coded.bytes).length < 2 ^ 64 →
        front'.length + (spelled.flatMap Coded.bytes).length < 2 ^ 64 →
          ∃ rows, LineTable.rows (header.tableOf front (program.flatMap Coded.bytes) back directory) = .ok rows ∧
            LineTable.rows (header.tableOf front' (spelled.flatMap Coded.bytes) back' directory') = .ok rows := by
  refine ⟨Coded.exists_spellsOut hbase program, ?_⟩
  intro spelled hspelled front back front' back' directory directory' hplace hplace'
  refine ⟨_, rows_tableOf program front back directory hplace, ?_⟩
  rw [rows_tableOf spelled front' back' directory' hplace', hspelled.rowsFrom_eq]

/-- A header with two bytes to an instruction and lines from three before to eight behind. -/
def spelledHeader : Header where
  offset := 0
  version := 4
  addressSize := 4
  minimumInstructionLength := 2
  maximumOperations := 1
  defaultIsStatement := true
  lineBase := -3
  lineRange := 12
  opcodeBase := 13
  operandCounts := [0, 1, 1, 1, 1, 0, 0, 0, 1, 0, 0, 1]
  directories := []
  files := []
  start := 0
  stop := 0

def Coded.special (s : UInt8) (hs : header.opcodeBase ≤ s) : Coded header where
  bytes := [s]
  instruction := .special (s - header.opcodeBase)
  reads := Instruction.reads_special hs

def Coded.constAddPc (hbase : 8 < header.opcodeBase) : Coded header where
  bytes := [8]
  instruction := .constAddPc
  reads := Instruction.reads_below hbase (.pure _)

def Coded.endSequence (hbase : header.opcodeBase = 13) : Coded header where
  bytes := Instruction.endSequence.write
  instruction := .endSequence
  reads := Instruction.reads_write hbase trivial

/-- Two specials, one of which goes back a line, with a constant advance between them. -/
def packedProgram : List (Coded spelledHeader) :=
  [.special 0x4b (by decide), .constAddPc (by decide), .special 0x0e (by decide), .endSequence rfl]

def spelledProgram : List (Coded spelledHeader) :=
  [.advancePc (by decide) 5, .advanceLine (by decide) (-1), .copy (by decide), .advancePc (by decide) 20,
    .advancePc (by decide) 0, .advanceLine (by decide) (-2), .copy (by decide), .endSequence rfl]

theorem spellsOut_packedProgram : SpellsOut packedProgram spelledProgram :=
  .special rfl (by decide) rfl rfl rfl <| .constAddPc rfl (by decide) rfl <| .special rfl (by decide) rfl rfl rfl <|
    .kept (by intro s _ hbytes; cases hbytes) (by decide) .nil

theorem rows_spelledOut_packedProgram :
    4 ≤ spelledHeader.opcodeBase ∧ SpellsOut packedProgram spelledProgram ∧
      ∃ rows, LineTable.rows (spelledHeader.tableOf [] (packedProgram.flatMap Coded.bytes) [] none) = .ok rows ∧
        LineTable.rows (spelledHeader.tableOf [] (spelledProgram.flatMap Coded.bytes) [] none) = .ok rows ∧
        rows.map (fun row => (row.address, row.line)) = [(10, 0), (50, 0xfffffffe), (50, 0xfffffffe)] := by
  obtain ⟨rows, hpacked, hspelled⟩ := (rows_spelledOut (by decide) packedProgram).2 spelledProgram
    spellsOut_packedProgram [] [] [] [] none none (by decide) (by decide +kernel)
  refine ⟨by decide, spellsOut_packedProgram, rows, hpacked, hspelled, ?_⟩
  rw [rows_tableOf packedProgram [] [] none (by decide)] at hpacked
  cases hpacked
  decide

end FirmwareDebug.LineTable
