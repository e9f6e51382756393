import FirmwareDebug.CallFrame.Program
import FirmwareDebug.Expression.Operation
import FirmwareDebug.LineTable.Lookup
import FirmwareDebug.Proofs.Decoding.Lasting
import FirmwareDebug.Unit.Summary

/-!
# What reads of sections fail with

Every read of a section fails with faults that last, from single bytes up to tables and headers.
-/

namespace FirmwareDebug

-- The instance for a read repeats what follows each of its conditionals.
set_option synthInstance.maxSize 20000

variable {α : Type}

namespace Read

/-! ## Bytes and numbers -/

instance (defect : Defect) : Decoding (malformed defect : Read α) := by
  unfold malformed
  infer_instance

instance : Decoding position := by
  unfold position
  infer_instance

instance : Decoding atEnd := by
  unfold atEnd
  infer_instance

instance (place : Nat) : Decoding (seek place) := by
  unfold seek
  infer_instance

instance (length : Nat) : Decoding (bytes length) := by
  refine .of_lasting fun c e next hread => ?_
  unfold bytes at hread
  split at hread <;> cases hread
  infer_instance

instance (length : Nat) : Decoding (skip length) := by
  refine .of_lasting fun c e next hread => ?_
  unfold skip at hread
  split at hread <;> cases hread
  infer_instance

instance : Decoding byte := by
  refine .of_lasting fun c e next hread => ?_
  unfold byte at hread
  split at hread <;> cases hread
  infer_instance

instance (size : Nat) : Decoding (number size) := by
  unfold number
  infer_instance

instance : Decoding signedByte := by
  unfold signedByte
  infer_instance

instance : Decoding half := by
  unfold half
  infer_instance

instance : Decoding signedHalf := by
  unfold signedHalf
  infer_instance

instance : Decoding word := by
  unfold word
  infer_instance

instance : Decoding signedWord := by
  unfold signedWord
  infer_instance

instance : Decoding long := by
  unfold long
  infer_instance

instance (size : UInt8) : Decoding (sized size) := by
  unfold sized
  infer_instance

instance (size : UInt8) : Decoding (address size) := by
  unfold address
  infer_instance

instance : Decoding text := by
  refine .of_lasting fun c e next hread => ?_
  unfold text at hread
  split at hread
  · split at hread <;> cases hread
    infer_instance
  · cases hread
    infer_instance

instance (length : Nat) : Decoding (within length) := by
  refine .of_lasting fun c e next hread => ?_
  unfold within at hread
  split at hread <;> cases hread
  infer_instance

instance (decode : List UInt8 → Leb128.Ending α) (tooWide : Defect) : Decoding (leb128 decode tooWide) := by
  refine .of_lasting fun c e next hread => ?_
  unfold leb128 at hread
  split at hread <;> cases hread
  all_goals infer_instance

instance : Decoding unsigned := by
  unfold unsigned
  infer_instance

instance : Decoding signed := by
  unfold signed
  infer_instance

instance : Decoding unsigned32 := by
  unfold unsigned32
  infer_instance

instance : Decoding signed32 := by
  unfold signed32
  infer_instance

/-! ## Repetition -/

section

variable {read : Read α} [Decoding read] {step : Read (Option α)} [Decoding step]

instance (budget : Nat) : Decoding (repeatFor step budget) := by
  induction budget with
  | zero =>
    unfold repeatFor
    infer_instance
  | succ budget ih =>
    unfold repeatFor
    refine .andThen fun found => ?_
    split <;> infer_instance

instance : Decoding (untilNone step) := by
  refine ⟨fun c h => ?_⟩
  have hrepeat : Decoding (repeatFor step (c.left + 1)) := inferInstance
  exact hrepeat.keeps c h

instance (count : Nat) : Decoding (times read count) := by
  induction count with
  | zero =>
    unfold times
    infer_instance
  | succ count ih =>
    unfold times
    infer_instance

instance (c : Cursor) : Decodes (read.eval c) := by
  refine ⟨fun e he => ?_⟩
  unfold eval at he
  split at he
  · cases he
  · cases he
    exact Decoding.lasting ‹_›

theorem lasting_collect (budget : Nat) (c : Cursor) {e : Fault}
    (h : (Decoded.collect read budget c).fault = some e) : Lasting e := by
  induction budget generalizing c with
  | zero => cases h
  | succ budget ih =>
    unfold Decoded.collect at h
    split at h
    · cases h
    · split at h
      · exact ih _ h
      · cases h
        exact Decoding.lasting ‹_›

theorem decodes_all {d : Decoded α} (h : ∀ e, d.fault = some e → Lasting e) : Decodes d.all := by
  unfold Decoded.all
  split
  · infer_instance
  · have := h _ ‹_›
    infer_instance

instance (c : Cursor) : Decodes (Decoded.ofCursor read c).all := decodes_all fun _ => lasting_collect _ c

end

instance (region : String) (section' : Bytes) (offset : Nat) : Decodes (textAt region section' offset) := by
  unfold textAt
  infer_instance

/-! ## Forms -/

instance : Decoding indirectForm := by
  unfold indirectForm
  infer_instance

instance (offset : UInt64) : Decoding (narrow offset) := by
  unfold narrow
  infer_instance

instance (size : Nat) : Decoding (constant size) := by
  unfold constant
  infer_instance

end Read

open Read

namespace Form

instance (budget : Nat) (form : Form) : Decoding (directFor budget form) := by
  fun_induction directFor budget form with
  | case1 form => infer_instance
  | case2 budget ih => infer_instance
  | case3 budget form => infer_instance

instance (form : Form) : Decoding form.direct := by
  refine ⟨fun c h => ?_⟩
  have hdirect : Decoding (directFor (c.left + 1) form) := inferInstance
  exact hdirect.keeps c h

variable (encoding : Encoding) (form : Form) (implicit : Option Int64)

instance : Decoding (skipDirect encoding form) := by
  unfold skipDirect
  split
  · infer_instance
  · split <;> infer_instance

instance : Decoding (form.skip encoding) := by
  unfold Form.skip
  infer_instance

instance : Decoding (readDirect encoding implicit form) := by
  unfold readDirect
  split <;> infer_instance

instance : Decoding (form.read encoding implicit) := by
  unfold Form.read
  infer_instance

end Form

/-! ## Abbreviations -/

namespace Abbreviation

instance : Decoding readSpec := by
  unfold readSpec
  infer_instance

instance : Decoding readChildren := by
  unfold readChildren
  refine .andThen fun flag => ?_
  split <;> infer_instance

instance : Decoding Abbreviation.read := by
  unfold Abbreviation.read
  infer_instance

end Abbreviation

namespace AbbreviationTable

instance (seen : List UInt64) : Decoding (readNew seen) := by
  unfold readNew
  refine .andThen fun a => ?_
  split <;> infer_instance

instance (seen : List UInt64) (budget : Nat) : Decoding (readFrom seen budget) := by
  induction budget generalizing seen with
  | zero =>
    unfold readFrom
    infer_instance
  | succ budget ih =>
    unfold readFrom
    refine .andThen fun a => ?_
    split <;> infer_instance

instance (section' : Bytes) (offset : UInt32) : Decodes (AbbreviationTable.read section' offset) := by
  unfold AbbreviationTable.read
  infer_instance

instance (table : AbbreviationTable) (code : UInt64) : Decodes (table.find code) := by
  unfold find
  split <;> infer_instance

end AbbreviationTable

/-! ## Lists of addresses -/

section

variable {addressAt : UInt64 → Except Fault UInt32} [∀ index, Decodes (addressAt index)]

namespace RangeList

instance : Decoding readOldEntry := by
  unfold readOldEntry
  infer_instance

instance : Decoding (readIndexed addressAt) := by
  unfold readIndexed
  infer_instance

instance : Decoding (readEntry addressAt) := by
  unfold readEntry
  refine .andThen fun kind => ?_
  split <;> infer_instance

instance (section' : Bytes) (offset base : UInt32) : Decodes (readOld section' offset base) := by
  unfold readOld
  infer_instance

instance (section' : Bytes) (offset base : UInt32) : Decodes (RangeList.read section' offset base addressAt) := by
  unfold RangeList.read
  infer_instance

end RangeList

namespace LocationList

instance : Decoding readOldEntry := by
  unfold readOldEntry
  infer_instance

instance : Decoding readExpression := by
  unfold readExpression
  infer_instance

instance : Decoding (readEntry addressAt) := by
  unfold readEntry
  refine .andThen fun kind => ?_
  split <;> infer_instance

instance (section' : Bytes) (offset base : UInt32) : Decodes (readOld section' offset base) := by
  unfold readOld
  infer_instance

instance (section' : Bytes) (offset base : UInt32) :
    Decodes (LocationList.read section' offset base addressAt) := by
  unfold LocationList.read
  infer_instance

end LocationList

end

/-! ## Units and entries -/

namespace UnitHeader

instance (version : UInt16) (inTypes : Bool) : Decoding (readLayout version inTypes) := by
  unfold readLayout
  infer_instance

instance (kind : UInt8) : Decoding (readExtras kind) := by
  unfold readExtras
  split <;> infer_instance

instance (bias : UInt32) (inTypes : Bool) (start stop : Nat) : Decoding (readFields bias inTypes start stop) := by
  unfold readFields
  infer_instance

instance (bias : UInt32) (inTypes : Bool) : Decoding (UnitHeader.read bias inTypes) := by
  unfold UnitHeader.read
  infer_instance

instance (region : String) (section' : Bytes) (bias : UInt32) (inTypes : Bool) :
    Decodes (readAll region section' bias inTypes) := by
  unfold readAll
  infer_instance

end UnitHeader

instance (encoding : Encoding) (specs : List AttributeSpec) : Decoding (skipValues encoding specs) := by
  induction specs with
  | nil =>
    unfold skipValues
    infer_instance
  | cons spec specs ih =>
    unfold skipValues
    infer_instance

instance (table : AbbreviationTable) (encoding : Encoding) (bias : UInt32) :
    Decoding (readIndexed table encoding bias) := by
  unfold readIndexed
  infer_instance

namespace Sections

variable (sections : Sections) (bases : UnitBases) (value : AttributeValue)

instance : Decodes sections.unitHeaders := by
  unfold unitHeaders
  infer_instance

instance (known : List AbbreviationTable) (headers : List UnitHeader) : Decodes (sections.tablesOf known headers) := by
  induction headers generalizing known with
  | nil =>
    unfold tablesOf
    infer_instance
  | cons header rest ih =>
    unfold tablesOf
    infer_instance

instance (tables : List AbbreviationTable) (header : UnitHeader) :
    Decodes (sections.entriesOfUnit tables header) := by
  unfold entriesOfUnit
  refine .andThen fun unit => ?_
  dsimp only
  split <;> infer_instance

instance (tables : List AbbreviationTable) (headers : List UnitHeader) :
    Decodes (sections.entriesOf tables headers) := by
  induction headers with
  | nil =>
    unfold entriesOf
    infer_instance
  | cons header rest ih =>
    unfold entriesOf
    infer_instance

/-! ## What offsets and indices stand for -/

instance : Decodes (sections.textOf bases value) := by
  unfold textOf
  split <;> infer_instance

instance (index : UInt64) : Decodes (sections.addressAt bases index) := by
  unfold addressAt
  infer_instance

instance : Decodes (sections.addressOf bases value) := by
  unfold addressOf
  split <;> infer_instance

instance (low : UInt32) : Decodes (sections.boundsOf bases low value) := by
  unfold boundsOf
  refine .andThen fun address => ?_
  split <;> infer_instance

instance (region : String) (section' : Bytes) (base : Option UInt32) (index : UInt64) :
    Decodes (listOffset region section' base index) := by
  unfold listOffset
  infer_instance

instance : Decodes (sections.rangesOf bases value) := by
  unfold rangesOf
  dsimp only
  split <;> infer_instance

instance : Decodes (sections.locationsOf bases value) := by
  unfold locationsOf
  dsimp only
  split <;> infer_instance

instance (pc : UInt32) : Decodes (sections.expressionAt bases value pc) := by
  unfold expressionAt
  infer_instance

end Sections

namespace EntryIndex

variable (index : EntryIndex) (encoding : Encoding) (offset : UInt32)

instance (sections : Sections) (headers : List UnitHeader) : Decodes (EntryIndex.build sections headers) := by
  unfold EntryIndex.build
  infer_instance

instance : Decodes (index.locate offset) := by
  unfold locate
  split
  · infer_instance
  · split <;> infer_instance

instance : Decodes (index.abbreviation offset) := by
  unfold abbreviation
  infer_instance

instance (specs : List AttributeSpec) : Decoding (readValues encoding specs) := by
  induction specs with
  | nil =>
    unfold readValues
    infer_instance
  | cons spec specs ih =>
    unfold readValues
    infer_instance

instance (name : AttributeName) (specs : List AttributeSpec) : Decoding (readNamed encoding name specs) := by
  induction specs with
  | nil =>
    unfold readNamed
    infer_instance
  | cons spec specs ih =>
    unfold readNamed
    infer_instance

instance {values : Read α} [Decoding values] : Decodes (index.readAt offset values) := by
  unfold readAt
  infer_instance

instance : Decodes (index.attributesWith encoding offset) := by
  unfold attributesWith
  infer_instance

end EntryIndex

namespace UnitSummary

instance (sections : Sections) (bases : UnitBases) (draft : Draft) (a : Attribute) :
    Decodes (draft.add sections bases a) := by
  unfold Draft.add
  infer_instance

instance (sections : Sections) (bases : UnitBases) (draft : Draft) : Decodes (draft.addresses sections bases) := by
  unfold Draft.addresses
  split <;> infer_instance

instance (index : EntryIndex) (header : UnitHeader) : Decodes (UnitSummary.build index header) := by
  unfold UnitSummary.build
  dsimp only
  split
  · infer_instance
  · split <;> infer_instance

end UnitSummary

/-! ## Line tables -/

namespace LineTable

variable (texts : TextSections) (encoding : Encoding)

instance : Decoding readColumn := by
  unfold readColumn
  infer_instance

instance : Decoding readColumns := by
  unfold readColumns
  infer_instance

instance (form : UInt16) (value : AttributeValue) : Decoding (pathText texts form value) := by
  unfold pathText
  split <;> infer_instance

instance (entry : FileEntry) (columns : List Column) : Decoding (readEntry encoding texts entry columns) := by
  induction columns generalizing entry with
  | nil =>
    unfold readEntry
    infer_instance
  | cons column columns ih =>
    unfold readEntry
    refine .andThen fun value => ?_
    dsimp only
    split <;> infer_instance

instance : Decoding (readTable encoding texts) := by
  unfold readTable
  infer_instance

instance : Decoding readName := by
  unfold readName
  infer_instance

instance : Decoding readFile := by
  unfold readFile
  refine .andThen fun name => ?_
  split <;> infer_instance

instance : Decoding (readTables encoding texts) := by
  unfold readTables
  infer_instance

instance (offset : UInt32) (stop : Nat) : Decoding (readFields texts offset stop) := by
  unfold readFields
  infer_instance

instance (offset : UInt32) : Decoding (readUnit offset) := by
  unfold readUnit
  infer_instance

instance (section' : Bytes) (offset : UInt32) : Decodes (Header.read section' texts offset) := by
  unfold Header.read
  infer_instance

namespace Instruction

instance (length : Nat) : Decoding (readExtendedBody length) := by
  unfold readExtendedBody
  refine .andThen fun opcode => ?_
  split <;> infer_instance

instance : Decoding readExtended := by
  unfold readExtended
  infer_instance

instance (header : Header) (opcode : UInt8) : Decoding (readStandard header opcode) := by
  unfold readStandard
  split <;> infer_instance

instance (header : Header) : Decoding (Instruction.read header) := by
  unfold Instruction.read
  infer_instance

end Instruction

variable (table : LineTable)

theorem lasting_of_instructions {header : Header} {section' : Bytes} {program : Decoded Instruction} {e : Fault}
    (h : header.instructions section' = .ok program) (he : program.fault = some e) : Lasting e := by
  obtain ⟨c, -, h⟩ := ok_of_bind h
  cases h
  exact lasting_collect _ c he

instance : Decodes table.decodedRows := by
  unfold decodedRows Header.instructions
  infer_instance

theorem lasting_of_decodedRows {rows : Decoded Row} {e : Fault} (h : table.decodedRows = .ok rows)
    (he : rows.fault = some e) : Lasting e := by
  obtain ⟨program, hprogram, h⟩ := ok_of_bind h
  cases h
  exact lasting_of_instructions hprogram he

instance : Decodes table.decodedPairs := by
  unfold decodedPairs
  infer_instance

theorem lasting_of_decodedPairs {pairs : Decoded (Row × Row)} {e : Fault} (h : table.decodedPairs = .ok pairs)
    (he : pairs.fault = some e) : Lasting e := by
  obtain ⟨rows, hrows, h⟩ := ok_of_bind h
  cases h
  exact table.lasting_of_decodedRows hrows he

instance : Decodes table.rows := by
  unfold rows
  cases hrows : table.decodedRows with
  | error e =>
    have := Decodes.lasting e hrows
    exact .error
  | ok rows => exact decodes_all fun e => table.lasting_of_decodedRows hrows

instance (address : UInt32) : Decodes (table.lineOfAddress address) := by
  unfold lineOfAddress
  cases hpairs : table.decodedPairs with
  | error e =>
    have := Decodes.lasting e hpairs
    exact .error
  | ok pairs =>
    dsimp only [bind, Except.bind]
    split
    case h_3 e _ hfault =>
      have := table.lasting_of_decodedPairs hpairs hfault
      exact .throw
    all_goals infer_instance

instance (file : String) (line : UInt32) : Decodes (table.addressesOfLine file line) := by
  have hpairs : Decodes (do (← table.decodedPairs).all) := by
    cases hpairs : table.decodedPairs with
    | error e =>
      have := Decodes.lasting e hpairs
      exact .error
    | ok pairs => exact decodes_all fun e => table.lasting_of_decodedPairs hpairs
  unfold addressesOfLine
  simp only [← bind_assoc]
  infer_instance

end LineTable

/-! ## Call frames and expressions -/

namespace CallFrame

instance : Decoding readDescription := by
  unfold readDescription
  infer_instance

instance (section' : Bytes) : Decodes (Table.read section') := by
  unfold Table.read
  infer_instance

instance (offset : UInt32) : Decoding (readCommonFields offset) := by
  unfold readCommonFields
  infer_instance

instance (offset : UInt32) : Decoding (readCommonUnit offset) := by
  unfold readCommonUnit
  infer_instance

instance (section' : Bytes) (offset : UInt32) : Decodes (CommonEntry.read section' offset) := by
  unfold CommonEntry.read
  infer_instance

instance : Decoding unsignedOperand := by
  unfold unsignedOperand
  infer_instance

instance : Decoding signedOperand := by
  unfold signedOperand
  infer_instance

instance (common : CommonEntry) (opcode : UInt8) : Decoding (readExtended common opcode) := by
  unfold readExtended
  split <;> infer_instance

instance (common : CommonEntry) : Decoding (readWord common) := by
  unfold readWord
  refine .andThen fun opcode => ?_
  dsimp only
  split <;> infer_instance

instance (common : CommonEntry) (instructions : List UInt8) : Decodes (words common instructions) := by
  unfold words
  infer_instance

instance (table : Table) (d : Description) : Decodes (table.programOf d) := by
  unfold Table.programOf
  infer_instance

instance (table : Table) (address : UInt32) : Decodes (table.programAt address) := by
  unfold Table.programAt
  split <;> infer_instance

end CallFrame

namespace Expression.Operation

theorem decoding_of_readConstant? {opcode : UInt8} {constant : Read UInt32}
    (h : readConstant? opcode = some constant) : Decoding constant := by
  unfold readConstant? at h
  split at h <;> cases h
  all_goals infer_instance

instance : Decoding readImplicit := by
  unfold readImplicit
  infer_instance

instance (opcode : UInt8) : Decoding (readOperands opcode) := by
  unfold readOperands
  split <;> infer_instance

instance (opcode : UInt8) : Decoding (readBody opcode) := by
  have hgroups : Decoding (match plainWord? opcode, readConstant? opcode with
      | some w, _ => return .word w
      | none, some constant => return literal (← constant)
      | none, none => readOperands opcode : Read Operation) := by
    split
    case h_2 hconstant =>
      have := decoding_of_readConstant? hconstant
      infer_instance
    all_goals infer_instance
  unfold readBody
  infer_instance

instance : Decoding Operation.read := by
  unfold Operation.read
  infer_instance

end Expression.Operation

end FirmwareDebug
