import FirmwareDebug.Proofs.LineTable.WrittenTables

/-!
# Headers of line tables that are written

A header is written in the layout of its version. Reading gives back its parameters, its tables and the
place of the program behind it.
-/

namespace FirmwareDebug.LineTable

open Read

/--
What is free in a header whose instructions are at least one byte long and whose standard opcodes end
at 12. Only what its version has of it is written.
-/
structure Preamble where
  version : UInt16
  addressSize : UInt8
  segmentSize : UInt8
  maximumOperations : UInt8
  defaultIsStatement : UInt8
  lineBase : UInt8
  lineRange : UInt8
  operandCounts : List UInt8
  /-- The bytes of the directories and files, and what else stands in front of the program. -/
  tables : List UInt8
  version_ge : 2 ≤ version
  version_le : version ≤ 5
  lineRange_ne : lineRange ≠ 0
  length_operandCounts : operandCounts.length = 12

namespace Preamble

/-- The sizes that version 5 has in front of the header's length. -/
def sizes (p : Preamble) : List UInt8 := if 5 ≤ p.version then [p.addressSize, p.segmentSize] else []

def parameters (p : Preamble) : List UInt8 :=
  [1] ++ ((if 4 ≤ p.version then [p.maximumOperations] else []) ++
    ([p.defaultIsStatement] ++ ([p.lineBase] ++ ([p.lineRange] ++ ([13] ++ p.operandCounts)))))

/-- The bytes up to the place that the length of the header counts from. -/
def lead (p : Preamble) : List UInt8 :=
  littleEndianBytes 2 p.version.toNat ++ (p.sizes ++ wordBytes (UInt32.ofNat (p.parameters ++ p.tables).length))

def body (p : Preamble) (program : List UInt8) : List UInt8 := p.lead ++ (p.parameters ++ (p.tables ++ program))

def write (p : Preamble) (program : List UInt8) : List UInt8 :=
  wordBytes (UInt32.ofNat (p.body program).length) ++ p.body program

/-- The size of addresses that the tables are read with. -/
def tableAddressSize (p : Preamble) : UInt8 := if 5 ≤ p.version then p.addressSize else 4

def start (p : Preamble) (offset : UInt32) : Nat :=
  offset.toNat + 4 + p.lead.length + (p.parameters ++ p.tables).length

def stop (p : Preamble) (offset : UInt32) (program : List UInt8) : Nat := offset.toNat + 4 + (p.body program).length

/-- The header that is read, with what its tables hold. -/
def header (p : Preamble) (offset : UInt32) (program : List UInt8) (tables : List String × List FileEntry) : Header :=
  { offset, version := p.version, addressSize := p.tableAddressSize, minimumInstructionLength := 1,
    maximumOperations := if 4 ≤ p.version then p.maximumOperations else 1,
    defaultIsStatement := p.defaultIsStatement ≠ 0, lineBase := p.lineBase.toInt8, lineRange := p.lineRange,
    opcodeBase := 13, operandCounts := p.operandCounts, directories := tables.1, files := tables.2,
    start := p.start offset, stop := p.stop offset program }

/-- The rest of the header, from the tables on. -/
def readRest (p : Preamble) (texts : TextSections) (offset : UInt32) (program : List UInt8) : Read Header := do
  return p.header offset program (← readTables ⟨p.version, p.tableAddressSize⟩ texts)

end Preamble

section

/-- What the length of a header counts, and the header. -/
def readParameters (texts : TextSections) (offset : UInt32) (stop : Nat) (version : UInt16) (addressSize : UInt8)
    (start : Nat) : Read Header := do
  let minimumInstructionLength ← byte
  let maximumOperations ← if 4 ≤ version then byte else pure 1
  let defaultIsStatement := (← byte) ≠ 0
  let lineBase ← signedByte
  let lineRange ← byte
  if lineRange = 0 then malformed .zeroLineRange
  let opcodeBase ← byte
  let operandCounts ← Read.bytes (opcodeBase.toNat - 1)
  let (directories, files) ← readTables ⟨version, addressSize⟩ texts
  return { offset, version, addressSize, minimumInstructionLength, maximumOperations,
           defaultIsStatement, lineBase, lineRange, opcodeBase, operandCounts, directories, files,
           start, stop }

theorem readFields_eq (texts : TextSections) (offset : UInt32) (stop : Nat) : readFields texts offset stop = (do
    let version ← half
    if version < 2 ∨ 5 < version then throw (.unsupportedVersion version)
    let addressSize ← if 5 ≤ version then do
        let size ← byte
        discard byte
        pure size
      else pure 4
    let headerLength ← word
    let start := (← position) + headerLength.toNat
    readParameters texts offset stop version addressSize start) := rfl

variable (p : Preamble) (texts : TextSections) (offset : UInt32) (program : List UInt8)

theorem leads_readParameters :
    Leads (readParameters texts offset (p.stop offset program) p.version p.tableAddressSize (p.start offset))
      p.parameters (p.readRest texts offset program) := by
  have hcounts : Leads (do
        let operandCounts ← Read.bytes 12
        let (directories, files) ← readTables ⟨p.version, p.tableAddressSize⟩ texts
        return { p.header offset program (directories, files) with operandCounts })
      p.operandCounts (p.readRest texts offset program) := by
    have hread := reads_bytes p.operandCounts
    rw [p.length_operandCounts] at hread
    exact hread.leads
  have hsigned : Reads signedByte [p.lineBase] p.lineBase.toInt8 := (reads_byte p.lineBase).map _
  unfold readParameters Preamble.parameters
  apply (reads_byte 1).leads.trans
  by_cases hversion : 4 ≤ p.version
  on_goal 1 =>
    simp only [if_pos hversion, Preamble.header] at hcounts ⊢
    apply (reads_byte _).leads.trans
  on_goal 2 =>
    simp only [if_neg hversion, Preamble.header] at hcounts ⊢
    rw [pure_bind]
  -- Behind the number of operations all versions go on alike.
  all_goals
    apply (reads_byte _).leads.trans
    apply hsigned.leads.trans
    apply (reads_byte _).leads.trans
    rw [if_neg p.lineRange_ne]
    apply (reads_byte _).leads.trans
    exact hcounts

theorem leads_readFields :
    Leads (readFields texts offset (p.stop offset program)) p.lead (do
      let start := (← position) + (UInt32.ofNat (p.parameters ++ p.tables).length).toNat
      readParameters texts offset (p.stop offset program) p.version p.tableAddressSize start) := by
  have hrange : ¬ (p.version < 2 ∨ 5 < p.version) := by
    have hge := UInt16.not_lt.mpr p.version_ge
    have hle := UInt16.not_lt.mpr p.version_le
    rintro (hlt | hgt)
    · exact hge hlt
    · exact hle hgt
  have hlength := reads_word (UInt32.ofNat (p.parameters ++ p.tables).length)
  unfold Preamble.lead Preamble.sizes
  rw [readFields_eq]
  apply (reads_half p.version).leads.trans
  rw [if_neg hrange]
  by_cases hversion : 5 ≤ p.version
  · simp only [if_pos hversion, Preamble.tableAddressSize]
    apply (reads_byte _).leads.trans
    apply (reads_byte _).discard.leads.trans
    exact hlength.leads
  · simp only [if_neg hversion, Preamble.tableAddressSize]
    exact hlength.leads

variable {p program} {front : List UInt8} (back : List UInt8)

theorem readUnit_write (hshort : (p.body program).length < 0xffffffff) {c : Cursor}
    (hc : c.Holds (p.write program ++ back)) (hposition : c.position = offset.toNat) :
    ∃ unit : Cursor, unit.Holds (p.body program) ∧ unit.position = offset.toNat + 4 ∧
      unit.limit = p.stop offset program ∧ (readUnit offset).eval c = .ok (unit, p.stop offset program) := by
  have hplace := offset.toNat_lt
  have hlength : (UInt32.ofNat (p.body program).length).toNat = (p.body program).length :=
    UInt32.toNat_ofNat_of_lt' (by simp only [UInt32.size]; omega)
  have hnarrow : ¬ UInt32.ofNat (p.body program).length = 0xffffffff := by
    intro hwide
    rw [hwide] at hlength
    simp at hlength
    omega
  rw [Preamble.write, List.append_assoc] at hc
  have hnext : (c.advance 4).Holds (p.body program ++ back) := hc.advance
  obtain ⟨unit, hwithin, hunit, hstart, hlimit⟩ := within_of_holds hnext
  have hrun : readUnit offset c =
      (within (p.body program).length >>= fun inner => pure (inner, c.position + 4 + (p.body program).length) : Read _)
        (c.advance 4) := by
    unfold readUnit
    rw [(reads_word _).run_bind hc (by simp only [wordBytes, length_littleEndianBytes]; omega), if_neg hnarrow,
      hlength]
    rfl
  simp only [Cursor.advance, hposition] at hstart hlimit
  rw [run_bind_of_ok hwithin, hposition] at hrun
  refine ⟨unit, hunit, hstart, hlimit, ?_⟩
  rw [eval, hrun]
  rfl

theorem read_write (hoffset : offset.toNat = front.length) (hshort : (p.body program).length < 0xffffffff) :
    ∃ unit : Cursor, unit.Holds (p.tables ++ program) ∧ unit.limit < 2 ^ 64 ∧
      Header.read (front ++ (p.write program ++ back)).toArray texts offset =
        (p.readRest texts offset program).eval unit := by
  have hplace := offset.toNat_lt
  have hlengths : (p.body program).length = p.lead.length + ((p.parameters ++ p.tables).length + program.length) := by
    simp [Preamble.body, Nat.add_assoc]
  have hcount : (UInt32.ofNat (p.parameters ++ p.tables).length).toNat = (p.parameters ++ p.tables).length :=
    UInt32.toNat_ofNat_of_lt' (by simp only [UInt32.size]; omega)
  obtain ⟨unit, hunit, hposition, hlimit, hread⟩ :=
    readUnit_write offset back hshort (.place region front (p.write program ++ back)) hoffset.symm
  rw [Preamble.stop] at hlimit
  have hfields := leads_readFields p texts offset program unit _ hunit (by omega)
  have hparameters := leads_readParameters p texts offset program _ _ hunit.advance (by
    rw [List.length_append] at hlengths
    simp only [Cursor.advance]
    omega)
  have hrun : readFields texts offset (p.stop offset program) unit =
      p.readRest texts offset program ((unit.advance p.lead.length).advance p.parameters.length) := by
    rw [Preamble.start, ← hposition] at hparameters
    rw [hfields, hcount, ← hparameters]
    rfl
  refine ⟨_, hunit.advance.advance, by simp only [Cursor.advance]; omega, ?_⟩
  rw [Header.read, hoffset, hread]
  change (readFields texts offset (p.stop offset program)).eval unit = _
  rw [eval, eval, hrun]

theorem read_of_tables (hoffset : offset.toNat = front.length) (hshort : (p.body program).length < 0xffffffff)
    {tables behind : List UInt8} {value : List String × List FileEntry} (htables : p.tables = tables ++ behind)
    (hvalue : WritesTables ⟨p.version, p.tableAddressSize⟩ texts tables value) :
    Header.read (front ++ (p.write program ++ back)).toArray texts offset = .ok (p.header offset program value) := by
  obtain ⟨unit, hunit, hlimit, hheader⟩ := read_write texts offset back hoffset hshort
  rw [htables, List.append_assoc] at hunit
  have hleft := hunit.left_eq
  rw [List.length_append] at hleft
  rw [hheader, eval, Preamble.readRest, (reads_tables hvalue).run_bind hunit (by omega)]
  rfl

theorem header_of_read (hoffset : offset.toNat = front.length) (hshort : (p.body program).length < 0xffffffff)
    {header : Header} (hread : Header.read (front ++ (p.write program ++ back)).toArray texts offset = .ok header) :
    ∃ tables, header = p.header offset program tables := by
  obtain ⟨unit, -, -, hheader⟩ := read_write texts offset back hoffset hshort
  rw [hheader] at hread
  obtain ⟨next, hrest⟩ := eval_eq_ok_iff.mp hread
  rw [Preamble.readRest] at hrest
  obtain ⟨tables, behind, htables, hvalue⟩ := ran_of_bind hrest
  cases hvalue
  exact ⟨tables, rfl⟩

end

end FirmwareDebug.LineTable
