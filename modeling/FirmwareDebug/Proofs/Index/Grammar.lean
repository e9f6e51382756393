import FirmwareDebug.Entry
import FirmwareDebug.Proofs.Read

/-!
# What an index has to say of its sections

The grammar of entries: which bytes are a value of a form, an entry, and the entries of a unit. An
index is right when its units and its entries tile the bytes they stand for and every lookup finds
what is written there. `Built.lean` shows that every index which is built is right.
-/

namespace FirmwareDebug

open Read

/-! ## Values and entries -/

/-- The forms whose values always take a number of bytes. -/
def formsOfSize : Nat → List Form
  | 0 => [.flagPresent, .implicitConst]
  | 1 => [.data1, .ref1, .flag, .strx1, .addrx1]
  | 2 => [.data2, .ref2, .strx2, .addrx2]
  | 3 => [.strx3, .addrx3]
  | 4 => [.data4, .ref4, .strp, .lineStrp, .secOffset, .strpSup, .refSup4, .strx4, .addrx4, .gnuRefAlt,
      .gnuStrpAlt]
  | 8 => [.data8, .ref8, .refSig8, .refSup8]
  | 16 => [.data16]
  | _ => []

/-- The forms whose values are one unsigned number in groups of seven bits. -/
def unsignedForms : List Form :=
  [.udata, .refUdata, .strx, .addrx, .loclistx, .rnglistx, .gnuAddrIndex, .gnuStrIndex]

/-- The bytes are a value of a form. -/
inductive ValueBytes (encoding : Encoding) : Form → List UInt8 → Prop
  | sized {form : Form} {bytes : List UInt8} (h : form ∈ formsOfSize bytes.length) :
      ValueBytes encoding form bytes
  | address {bytes : List UInt8} (h : bytes.length = encoding.addressSize.toNat) :
      ValueBytes encoding .address bytes
  | oldReference {bytes : List UInt8} (hversion : encoding.version ≤ 2)
      (h : bytes.length = encoding.addressSize.toNat) : ValueBytes encoding .refAddr bytes
  | reference {bytes : List UInt8} (hversion : 2 < encoding.version) (h : bytes.length = 4) :
      ValueBytes encoding .refAddr bytes
  | string {front : List UInt8} (h : 0 ∉ front) : ValueBytes encoding .string (front ++ [0])
  | block1 {length : UInt8} {content : List UInt8} (h : content.length = length.toNat) :
      ValueBytes encoding .block1 (length :: content)
  | block2 {length content : List UInt8} (hlength : length.length = 2)
      (h : content.length = littleEndian length) : ValueBytes encoding .block2 (length ++ content)
  | block4 {length content : List UInt8} (hlength : length.length = 4)
      (h : content.length = littleEndian length) : ValueBytes encoding .block4 (length ++ content)
  | block {form : Form} {length content : List UInt8} {count : UInt64} (hform : form ∈ [.block, .exprloc])
      (hlength : IsUnsigned length count) (h : content.length = count.toNat) :
      ValueBytes encoding form (length ++ content)
  | signed {bytes : List UInt8} {value : Int64} (h : IsSigned bytes value) : ValueBytes encoding .sdata bytes
  | unsigned {form : Form} {bytes : List UInt8} {value : UInt64} (hform : form ∈ unsignedForms)
      (h : IsUnsigned bytes value) : ValueBytes encoding form bytes
  /-- The number of the form stands in front of the value. -/
  | indirect {front back : List UInt8} {code : UInt64} (hcode : IsUnsigned front code)
      (hfits : code.toNat < 2 ^ 16) (h : ValueBytes encoding (.ofCode code.toUInt16) back) :
      ValueBytes encoding .indirect (front ++ back)

/-- The bytes are an entry with an abbreviation of the table, or a null entry. -/
inductive EntryBytes (table : AbbreviationTable) (encoding : Encoding) :
    Option Abbreviation → List UInt8 → Prop
  | null {bytes : List UInt8} (h : IsUnsigned bytes 0) : EntryBytes table encoding none bytes
  | entry {code : UInt64} {a : Abbreviation} {front : List UInt8} {values : List (List UInt8)}
      (hcode : IsUnsigned front code) (hne : code ≠ 0) (ha : table.find code = .ok a)
      (hvalues : List.Forall₂ (fun spec bytes => ValueBytes encoding spec.form bytes) a.attributes values) :
      EntryBytes table encoding (some a) (front ++ values.flatten)

/-- The bytes from a place on are those of entries, each where the one before it ends. -/
inductive EntriesTile (table : AbbreviationTable) (encoding : Encoding) :
    Nat → List UInt8 → List IndexedEntry → Prop
  | done {start : Nat} : EntriesTile table encoding start [] []
  | next {start : Nat} {e : IndexedEntry} {front back : List UInt8} {rest : List IndexedEntry}
      (hoffset : e.offset.toNat = start) (hfront : EntryBytes table encoding e.abbreviation front)
      (hback : EntriesTile table encoding (start + front.length) back rest) :
      EntriesTile table encoding start (front ++ back) (e :: rest)

/-! ## Units -/

namespace Sections

/-- The bytes that units are written in, in the order of the offsets they share. -/
def space (sections : Sections) : Bytes := sections.info ++ sections.types

/-- How many bytes all sections have. -/
def size (sections : Sections) : Nat :=
  sections.info.size + sections.types.size + sections.abbreviations.size + sections.text.size +
    sections.textOffsets.size + sections.line.size + sections.lineText.size + sections.addresses.size +
    sections.ranges.size + sections.rangeLists.size + sections.locations.size +
    sections.locationLists.size + sections.frame.size

@[simp]
theorem size_space (sections : Sections) : sections.space.size = sections.info.size + sections.types.size :=
  Array.size_append

theorem space_lt {sections : Sections} (h : sections.size < 2 ^ 32) : sections.space.size < 2 ^ 32 := by
  rw [size] at h
  rw [size_space]
  omega

end Sections

/-- The units follow each other from one place to another, and none is empty. -/
def UnitHeader.Tile : (start stop : Nat) → List UnitHeader → Prop
  | start, stop, [] => start = stop
  | start, stop, header :: rest =>
    header.offset.toNat = start ∧ start < header.stop.toNat ∧ UnitHeader.Tile header.stop.toNat stop rest

/-- The entries are those that the unit's own table of abbreviations makes of its bytes. -/
def UnitHeader.HasEntries (sections : Sections) (header : UnitHeader) (entries : List IndexedEntry) : Prop :=
  header.offset < header.firstEntry ∧ header.firstEntry ≤ header.stop ∧
    ∃ table, AbbreviationTable.read sections.abbreviations header.abbreviations = .ok table ∧
      EntriesTile table header.encoding header.firstEntry.toNat
        (sections.space.extract header.firstEntry.toNat header.stop.toNat).toList entries

/-! ## The index -/

namespace DebugInfo

/-- The headers of all units. -/
def headers (info : DebugInfo) : List UnitHeader := info.units.toList.map UnitSummary.header

/-- The number of the unit that an offset lies in, when other offsets were asked for before it. -/
def unitNumberAfter (info : DebugInfo) (history : List UInt32) (offset : UInt32) : Option Nat :=
  ((do discard (history.mapM info.unitNumberNear); info.unitNumberNear offset : StateM (Option Nat) _).run' none).run

/-- The index says what is written in the sections. -/
structure WellIndexed (sections : Sections) (info : DebugInfo) : Prop where
  units_tile : UnitHeader.Tile 0 sections.space.size info.headers
  increasing : info.entries.toList.Pairwise fun a b => a.offset < b.offset
  /-- The entries are those of the units, one unit after the other. -/
  entries_tile : ∃ parts : List (List IndexedEntry), info.entries.toList = parts.flatten ∧
    List.Forall₂ (UnitHeader.HasEntries sections) info.headers parts
  entryAt_entry : ∀ e ∈ info.entries, ∀ a, e.abbreviation = some a →
    info.entryAt e.offset = .ok (.ofAbbreviation e.offset a [])
  entryAt_other : ∀ offset, (∀ e ∈ info.entries, e.offset = offset → e.abbreviation = none) →
    info.entryAt offset = .error (.notAnEntry offset)
  /-- The place of an abbreviation tells it apart, whichever units' tables it is written in. -/
  abbreviation_place : ∀ e ∈ info.entries, ∀ a, e.abbreviation = some a →
    ∀ header ∈ info.headers, ∀ table,
      AbbreviationTable.read sections.abbreviations header.abbreviations = .ok table →
        ∀ b ∈ table.entries, b.offset = a.offset → b = a
  unitNumber_iff : ∀ history offset number, info.unitNumberAfter history offset = some number ↔
    ∃ unit, info.units[number]? = some unit ∧ unit.header.contains offset

end DebugInfo

end FirmwareDebug
