import FirmwareDebug.Proofs.RangeList
import FirmwareDebug.Unit.Resolve

/-!
# Location lists that are written

A location list gives an address the expression of the first entry whose interval contains it, or else that of
the first default entry. A list that the old format can write too gives the same in both.
-/

namespace FirmwareDebug

open Leb128 Read

namespace LocationList

/-! ## Entries -/

/-- An expression whose length fits the number in front of it. -/
structure Expression where
  bytes : List UInt8
  length_lt : bytes.length < 2 ^ 64

def Expression.write (expression : Expression) : List UInt8 :=
  writeUnsigned expression.bytes.length ++ expression.bytes

/-- An entry of a location list. -/
inductive Item
  | setBase (base : ListedBase)
  | located (listed : ListedInterval) (expression : Expression)
  | default (expression : Expression)

namespace Item

def numbers : Item → List UInt64
  | setBase base => base.numbers
  | located listed _ => listed.numbers
  | default _ => []

def kind : Item → UInt8
  | setBase (.numbered _) => 1
  | located (.numberedEnds _ _) _ => 2
  | located (.numberedLength _ _) _ => 3
  | located (.offsets _ _) _ => 4
  | default _ => 5
  | setBase (.address _) => 6
  | located (.ends _ _) _ => 7
  | located (.length _ _) _ => 8

def write (item : Item) : List UInt8 :=
  item.kind :: match item with
    | setBase base => base.write
    | located listed expression => listed.write ++ expression.write
    | default expression => expression.write

/-- What is read of an entry. -/
def entry (table : UInt64 → UInt32) : Item → LocationEntry
  | setBase base => .base (base.value table)
  | located (.offsets start stop) expression => .offsets start stop expression.bytes
  | located listed expression => .absolute (listed.interval table 0) expression.bytes
  | default expression => .default expression.bytes

end Item

/-- The entries and the kind that ends the list. -/
def write (items : List Item) : List UInt8 := items.flatMap Item.write ++ [0]

/-- The expression of the first entry whose interval, from the base in force there, contains an address. -/
def firstLocated (table : UInt64 → UInt32) (pc : UInt32) : UInt32 → List Item → Option (List UInt8)
  | _, [] => none
  | _, .setBase base :: rest => firstLocated table pc (base.value table) rest
  | base, .located listed expression :: rest =>
    if (listed.interval table base).start ≤ pc ∧ pc < (listed.interval table base).stop then some expression.bytes
    else firstLocated table pc base rest
  | base, .default _ :: rest => firstLocated table pc base rest

/-- The expression of the first default entry. -/
def firstDefault : List Item → Option (List UInt8)
  | [] => none
  | .default expression :: _ => some expression.bytes
  | _ :: rest => firstDefault rest

/-- An entry that the old format has too. -/
inductive OldItem
  | setBase (base : UInt32)
  | located (pair : OldPair) (expression : List UInt8) (length_lt : expression.length < 2 ^ 16)

namespace OldItem

def item : OldItem → Item
  | setBase base => .setBase (.address base)
  | located pair expression length_lt =>
    .located (.offsets pair.start pair.stop) ⟨expression, Nat.lt_trans length_lt (by decide)⟩

def write : OldItem → List UInt8
  | setBase base => writeOldBase base
  | located pair expression _ => pair.write ++ (littleEndianBytes 2 expression.length ++ expression)

@[simp]
theorem numbers_item (old : OldItem) : old.item.numbers = [] := by
  cases old <;> rfl

end OldItem

def writeOld (items : List OldItem) : List UInt8 := items.flatMap OldItem.write ++ oldEnd

/-! ## Reading them back -/

variable {addressAt : UInt64 → Except Fault UInt32} {table : UInt64 → UInt32}

theorem yields_expression (expression : Expression) : Yields readExpression expression.write expression.bytes := by
  have hlength : (UInt64.ofNat expression.bytes.length).toNat = expression.bytes.length :=
    UInt64.toNat_ofNat_of_lt' expression.length_lt
  have hnumber := yields_unsigned64 (UInt64.ofNat expression.bytes.length)
  rw [hlength] at hnumber
  apply hnumber.bind
  rw [hlength]
  exact yields_bytes expression.bytes

theorem yields_entry {item : Item} (h : ∀ number ∈ item.numbers, addressAt number = .ok (table number)) :
    Yields (readEntry addressAt) item.write (some (item.entry table)) := by
  apply (yields_byte item.kind).bind
  cases item with
  | setBase base =>
    cases base with
    | address place => exact (yields_word place).map _
    | numbered number =>
      have hbase := h number (by simp [Item.numbers, ListedBase.numbers])
      exact (RangeList.yields_indexed hbase).map _
  | default expression => exact (yields_expression expression).map _
  | located listed expression =>
    have hexpression := yields_expression expression
    cases listed with
    | offsets start stop => exact (yields_unsigned32 start).bind_both (yields_unsigned32 stop) (hexpression.map _)
    | ends start stop => exact (yields_word start).bind_both (yields_word stop) (hexpression.map _)
    | length start count => exact (yields_word start).bind_both (yields_unsigned32 count) (hexpression.map _)
    | numberedEnds start stop =>
      have hstart := h start (by simp [Item.numbers, ListedInterval.numbers])
      have hstop := h stop (by simp [Item.numbers, ListedInterval.numbers])
      exact (RangeList.yields_indexed hstart).bind_both (RangeList.yields_indexed hstop) (hexpression.map _)
    | numberedLength start count =>
      have hstart := h start (by simp [Item.numbers, ListedInterval.numbers])
      exact (RangeList.yields_indexed hstart).bind_both (yields_unsigned32 count) (hexpression.map _)

theorem yields_oldEntry (item : OldItem) : Yields readOldEntry item.write (some (item.item.entry table)) := by
  cases item with
  | setBase base => exact (yields_word 0xffffffff).bind ((yields_word base).bind_last (.pure _))
  | located pair expression length_lt =>
    have hlength : (UInt16.ofNat expression.length).toNat = expression.length := UInt16.toNat_ofNat_of_lt' length_lt
    have hhalf := yields_half (UInt16.ofNat expression.length)
    rw [hlength] at hhalf
    apply (yields_word pair.start).bind_both (yields_word pair.stop)
    rw [if_neg pair.not_end, if_neg pair.not_base]
    apply hhalf.bind
    rw [hlength]
    exact (yields_bytes expression).map _

theorem yields_oldEnd : Yields readOldEntry oldEnd none :=
  (yields_word 0).bind ((yields_word 0).bind_last (.pure _))

theorem find_located (pc base : UInt32) (items : List Item) :
    ((expressions base (items.map (Item.entry table))).find? fun e => e.interval.any (·.contains pc)).map
      LocatedExpression.expression = firstLocated table pc base items := by
  induction items generalizing base with
  | nil => rfl
  | cons item rest ih =>
    cases item with
    | setBase newBase => exact ih _
    | default expression => exact ih base
    | located listed expression =>
      have hcons : expressions base ((Item.located listed expression :: rest).map (Item.entry table)) =
          ⟨some (listed.interval table base), expression.bytes⟩ :: expressions base (rest.map (Item.entry table)) := by
        cases listed <;> rfl
      rw [hcons, firstLocated, List.find?_cons]
      by_cases hinside : (listed.interval table base).start ≤ pc ∧ pc < (listed.interval table base).stop
      · simp [Interval.contains, hinside]
      · have houtside : (listed.interval table base).contains pc = false := by
          simpa [Interval.contains] using hinside
        simp only [Option.any_some, houtside, if_neg hinside]
        exact ih base

theorem find_default (base : UInt32) (items : List Item) :
    ((expressions base (items.map (Item.entry table))).find? (·.interval.isNone)).map LocatedExpression.expression =
      firstDefault items := by
  induction items generalizing base with
  | nil => rfl
  | cons item rest ih =>
    cases item with
    | setBase newBase => exact ih _
    | default expression => rfl
    | located listed expression => cases listed <;> exact ih base

theorem select_expressions (pc base : UInt32) (items : List Item) :
    select pc (expressions base (items.map (Item.entry table))) =
      (firstLocated table pc base items).or (firstDefault items) := by
  rw [← find_located, ← find_default base items, select]
  cases (expressions base (items.map (Item.entry table))).find? fun e => e.interval.any (·.contains pc) <;> rfl

theorem read_written (items : List Item) (front back : List UInt8) {offset : UInt32}
    (hoffset : offset.toNat = front.length) (base : UInt32)
    (htable : ∀ item ∈ items, ∀ number ∈ item.numbers, addressAt number = .ok (table number)) :
    read (front ++ (write items ++ back)).toArray offset base addressAt =
      .ok (expressions base (items.map (Item.entry table))) := by
  have hlist : Yields (untilNone (readEntry addressAt)) (write items) (items.map (Item.entry table)) :=
    yields_untilNone (fun item hmem => yields_entry (htable item hmem)) (fun item => by simp [Item.write])
      ((yields_byte 0).bind (.pure _))
  rw [read, hoffset, hlist.eval_eq]
  rfl

theorem readOld_written (items : List OldItem) (front back : List UInt8) {offset : UInt32}
    (hoffset : offset.toNat = front.length) (base : UInt32) (table : UInt64 → UInt32) :
    readOld (front ++ (writeOld items ++ back)).toArray offset base =
      .ok (expressions base ((items.map OldItem.item).map (Item.entry table))) := by
  have hlist : Yields (untilNone readOldEntry) (writeOld items) (items.map fun item => item.item.entry table) :=
    yields_untilNone (fun item _ => yields_oldEntry item)
      (fun item => by cases item <;> simp [OldItem.write, writeOldBase, OldPair.write, wordBytes_ne_nil]) yields_oldEnd
  rw [readOld, hoffset, hlist.eval_eq, List.map_map]
  rfl

/-- The value stands for the list at a place of the section of location lists. -/
def NamesList (sections : Sections) (bases : UnitBases) (value : AttributeValue) (offset : UInt32) : Prop :=
  (5 ≤ bases.version ∧ value.sectionOffset? = some offset) ∨
    ∃ number, value = .locationListIndex number ∧
      Sections.listOffset region sections.locationLists bases.locationLists number = .ok offset

variable {sections : Sections} {bases : UnitBases} {value : AttributeValue} {offset : UInt32}

theorem sectionOffset_cases (h : value.sectionOffset? = some offset) :
    value = .sectionOffset offset ∨ ∃ number, value = .constant number := by
  cases value with
  | sectionOffset place =>
    cases h
    exact .inl rfl
  | constant number => exact .inr ⟨number, rfl⟩
  | _ => cases h

theorem locationsOf_named (h : NamesList sections bases value offset) :
    sections.locationsOf bases value =
      read sections.locationLists offset (bases.baseAddress.getD 0) (sections.addressAt bases) := by
  rcases h with ⟨hversion, hoffset⟩ | ⟨number, rfl, hoffset⟩
  · rcases sectionOffset_cases hoffset with rfl | ⟨number, rfl⟩
    all_goals simp only [Sections.locationsOf, AttributeValue.block?, hoffset, if_pos hversion]
  · simp only [Sections.locationsOf, AttributeValue.block?, hoffset]
    rfl

theorem locationsOf_old (hversion : bases.version < 5) (hoffset : value.sectionOffset? = some offset) :
    sections.locationsOf bases value = readOld sections.locations offset (bases.baseAddress.getD 0) := by
  have hold : ¬ 5 ≤ bases.version := UInt16.not_le.mpr hversion
  rcases sectionOffset_cases hoffset with rfl | ⟨number, rfl⟩
  all_goals simp only [Sections.locationsOf, AttributeValue.block?, hoffset, if_neg hold]

/--
An address gets the expression of the first entry whose interval contains it, or else that of the first default.
Where all entries can be written in the old format, it gets the same from both.
-/
theorem expression_of_write (items : List Item) (pc : UInt32) (front back : List UInt8) (offset : UInt32)
    (sections : Sections) (bases : UnitBases) (value : AttributeValue) (table : UInt64 → UInt32)
    (hoffset : offset.toNat = front.length)
    (hsection : sections.locationLists = (front ++ (write items ++ back)).toArray)
    (hvalue : NamesList sections bases value offset)
    (htable : ∀ item ∈ items, ∀ number ∈ item.numbers, sections.addressAt bases number = .ok (table number)) :
    sections.expressionAt bases value pc =
        .ok ((firstLocated table pc (bases.baseAddress.getD 0) items).or (firstDefault items)) ∧
      ∀ oldItems oldFront oldBack (oldOffset : UInt32) (oldSections : Sections) (oldBases : UnitBases)
        (oldValue : AttributeValue), items = oldItems.map OldItem.item → oldOffset.toNat = oldFront.length →
          oldSections.locations = (oldFront ++ (writeOld oldItems ++ oldBack)).toArray → oldBases.version < 5 →
            oldBases.baseAddress = bases.baseAddress → oldValue.sectionOffset? = some oldOffset →
              oldSections.expressionAt oldBases oldValue pc = sections.expressionAt bases value pc := by
  have hread : sections.expressionAt bases value pc =
      .ok ((firstLocated table pc (bases.baseAddress.getD 0) items).or (firstDefault items)) := by
    rw [Sections.expressionAt, locationsOf_named hvalue, hsection, read_written items front back hoffset _ htable,
      ← select_expressions]
    rfl
  refine ⟨hread, ?_⟩
  intro oldItems oldFront oldBack oldOffset oldSections oldBases oldValue hitems holdOffset holdSection hversion hbase
    holdValue
  rw [hread, hitems, ← select_expressions, Sections.expressionAt, locationsOf_old hversion holdValue, holdSection,
    readOld_written oldItems oldFront oldBack holdOffset _ table, hbase]
  rfl

/-- A default entry comes first and the base changes between the others. -/
def sampleItems : List Item :=
  [.default ⟨[0x51], by decide⟩, .located (.offsets 0 0x10) ⟨[0x50], by decide⟩, .setBase (.numbered 1),
    .located (.offsets 0x10 0x20) ⟨[0x91, 4], by decide⟩, .located (.numberedLength 0 4) ⟨[], by decide⟩]

def sampleOldItems : List OldItem :=
  [.located ⟨8, 0x10, by decide, by decide⟩ [0x50] (by decide), .setBase 0x8000,
    .located RangeList.samplePair [0x91, 4] (by decide)]

/-- The list stands behind a table of offsets that names it first. -/
def sampleSections (items : List Item) : Sections where
  locationLists := (wordBytes 4 ++ (write items ++ [0xff])).toArray
  addresses := (wordBytes 0x4000 ++ wordBytes 0x20000000).toArray
  locations := ([0xaa] ++ (writeOld sampleOldItems ++ [])).toArray

def sampleBases : UnitBases where
  version := 5
  addressSize := 4
  baseAddress := some 0x1000
  locationLists := some 0

theorem addressAt_sample (items : List Item) :
    (sampleSections items).addressAt sampleBases 0 = .ok (RangeList.sampleTable 0) ∧
      (sampleSections items).addressAt sampleBases 1 = .ok (RangeList.sampleTable 1) := by
  have hfirst : ((sampleSections []).addressAt sampleBases 0).toOption = some (RangeList.sampleTable 0) := by
    decide +kernel
  have hsecond : ((sampleSections []).addressAt sampleBases 1).toOption = some (RangeList.sampleTable 1) := by
    decide +kernel
  exact ⟨ok_of_toOption hfirst, ok_of_toOption hsecond⟩

theorem expression_of_write_sample :
    NamesList (sampleSections sampleItems) sampleBases (.sectionOffset 4) 4 ∧
      (∀ item ∈ sampleItems, ∀ number ∈ item.numbers,
        (sampleSections sampleItems).addressAt sampleBases number = .ok (RangeList.sampleTable number)) ∧
      (sampleSections sampleItems).expressionAt sampleBases (.sectionOffset 4) 0x20000018 = .ok (some [0x91, 4]) ∧
      (sampleSections sampleItems).expressionAt sampleBases (.sectionOffset 4) 0x1010 = .ok (some [0x51]) ∧
      (sampleSections []).expressionAt { sampleBases with version := 4 } (.constant 1) 0x8010 =
        (sampleSections (sampleOldItems.map OldItem.item)).expressionAt sampleBases (.locationListIndex 0) 0x8010 := by
  have hnames : NamesList (sampleSections sampleItems) sampleBases (.sectionOffset 4) 4 := .inl ⟨by decide, rfl⟩
  have htable : ∀ item ∈ sampleItems, ∀ number ∈ item.numbers,
      (sampleSections sampleItems).addressAt sampleBases number = .ok (RangeList.sampleTable number) := by
    have haddresses := addressAt_sample sampleItems
    simp [sampleItems, Item.numbers, ListedBase.numbers, ListedInterval.numbers] at haddresses ⊢
    exact ⟨haddresses.2, haddresses.1⟩
  have hread (pc : UInt32) := (expression_of_write sampleItems pc (wordBytes 4) [0xff] 4 (sampleSections sampleItems)
    sampleBases (.sectionOffset 4) RangeList.sampleTable rfl rfl hnames htable).1
  have holdNames :
      NamesList (sampleSections (sampleOldItems.map OldItem.item)) sampleBases (.locationListIndex 0) 4 := by
    have hplace : (Sections.listOffset region (sampleSections (sampleOldItems.map OldItem.item)).locationLists
        sampleBases.locationLists 0).toOption = some 4 := by decide +kernel
    exact .inr ⟨0, rfl, ok_of_toOption hplace⟩
  have holdTable : ∀ item ∈ sampleOldItems.map OldItem.item, ∀ number ∈ item.numbers,
      (sampleSections (sampleOldItems.map OldItem.item)).addressAt sampleBases number =
        .ok (RangeList.sampleTable number) := by
    simp [OldItem.numbers_item]
  have hold := (expression_of_write (sampleOldItems.map OldItem.item) 0x8010 (wordBytes 4) [0xff] 4
    (sampleSections (sampleOldItems.map OldItem.item)) sampleBases (.locationListIndex 0) RangeList.sampleTable rfl rfl
    holdNames holdTable).2 sampleOldItems [0xaa] [] 1 (sampleSections []) { sampleBases with version := 4 }
    (.constant 1) rfl rfl rfl (by decide) rfl rfl
  exact ⟨hnames, htable, hread 0x20000018, hread 0x1010, hold⟩

end LocationList

end FirmwareDebug
