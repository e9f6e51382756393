import FirmwareDebug.RangeList
import FirmwareDebug.Proofs.Written

/-!
# Range lists that are written

Lists of addresses tell an interval from a base that entries may change, by its ends, by its start and its
length, or by numbers in the address table. A range list gives back the intervals that its entries denote,
and a list that the old format can write too denotes the same in both.
-/

namespace FirmwareDebug

open Leb128 Read

/-! ## Bases and intervals -/

/-- The base that an entry sets. -/
inductive ListedBase
  | address (place : UInt32)
  /-- The address with a number in the address table. -/
  | numbered (number : UInt64)

/-- The interval of an entry, as the entry tells it. -/
inductive ListedInterval
  /-- Both ends count from the base in force. -/
  | offsets (start stop : UInt32)
  | ends (start stop : UInt32)
  | numberedEnds (start stop : UInt64)
  | length (start count : UInt32)
  | numberedLength (start : UInt64) (count : UInt32)

namespace ListedBase

def numbers : ListedBase → List UInt64
  | address _ => []
  | numbered number => [number]

def value (table : UInt64 → UInt32) : ListedBase → UInt32
  | address place => place
  | numbered number => table number

def write : ListedBase → List UInt8
  | address place => wordBytes place
  | numbered number => writeUnsigned number.toNat

end ListedBase

namespace ListedInterval

def numbers : ListedInterval → List UInt64
  | numberedEnds start stop => [start, stop]
  | numberedLength start _ => [start]
  | _ => []

/-- The addresses from the start up to the end; sums wrap around. -/
def interval (table : UInt64 → UInt32) (base : UInt32) : ListedInterval → Interval
  | offsets start stop => ⟨base + start, base + stop⟩
  | ends start stop => ⟨start, stop⟩
  | numberedEnds start stop => ⟨table start, table stop⟩
  | length start count => ⟨start, start + count⟩
  | numberedLength start count => ⟨table start, table start + count⟩

def write : ListedInterval → List UInt8
  | offsets start stop => writeUnsigned start.toNat ++ writeUnsigned stop.toNat
  | ends start stop => wordBytes start ++ wordBytes stop
  | numberedEnds start stop => writeUnsigned start.toNat ++ writeUnsigned stop.toNat
  | length start count => wordBytes start ++ writeUnsigned count.toNat
  | numberedLength start count => writeUnsigned start.toNat ++ writeUnsigned count.toNat

end ListedInterval

/-- Two offsets that the old format takes neither for the end of a list nor for a new base. -/
structure OldPair where
  start : UInt32
  stop : UInt32
  not_end : ¬ (start = 0 ∧ stop = 0)
  not_base : start ≠ 0xffffffff

def OldPair.write (pair : OldPair) : List UInt8 := wordBytes pair.start ++ wordBytes pair.stop

/-- A new base in the old format. -/
def writeOldBase (base : UInt32) : List UInt8 := wordBytes 0xffffffff ++ wordBytes base

/-- The end of a list in the old format. -/
def oldEnd : List UInt8 := wordBytes 0 ++ wordBytes 0

namespace RangeList

/-! ## Entries -/

/-- An entry of a range list. -/
inductive Item
  | setBase (base : ListedBase)
  | interval (listed : ListedInterval)

namespace Item

def numbers : Item → List UInt64
  | setBase base => base.numbers
  | interval listed => listed.numbers

def kind : Item → UInt8
  | setBase (.numbered _) => 1
  | interval (.numberedEnds _ _) => 2
  | interval (.numberedLength _ _) => 3
  | interval (.offsets _ _) => 4
  | setBase (.address _) => 5
  | interval (.ends _ _) => 6
  | interval (.length _ _) => 7

def write (item : Item) : List UInt8 :=
  item.kind :: match item with
    | setBase base => base.write
    | interval listed => listed.write

/-- What is read of an entry. -/
def entry (table : UInt64 → UInt32) : Item → RangeEntry
  | setBase base => .base (base.value table)
  | interval (.offsets start stop) => .offsets start stop
  | interval listed => .absolute (listed.interval table 0)

end Item

/-- The entries and the kind that ends the list. -/
def write (items : List Item) : List UInt8 := items.flatMap Item.write ++ [0]

/-- The intervals of entries in order, each from the base in force at its entry. -/
def denoted (table : UInt64 → UInt32) : UInt32 → List Item → List Interval
  | _, [] => []
  | _, .setBase base :: rest => denoted table (base.value table) rest
  | base, .interval listed :: rest => listed.interval table base :: denoted table base rest

/-- An entry that the old format has too. -/
inductive OldItem
  | setBase (base : UInt32)
  | interval (pair : OldPair)

namespace OldItem

def item : OldItem → Item
  | setBase base => .setBase (.address base)
  | interval pair => .interval (.offsets pair.start pair.stop)

def write : OldItem → List UInt8
  | setBase base => writeOldBase base
  | interval pair => pair.write

@[simp]
theorem numbers_item (old : OldItem) : old.item.numbers = [] := by
  cases old <;> rfl

end OldItem

def writeOld (items : List OldItem) : List UInt8 := items.flatMap OldItem.write ++ oldEnd

/-! ## Reading them back -/

variable {addressAt : UInt64 → Except Fault UInt32} {table : UInt64 → UInt32}

theorem intervals_map_entry (base : UInt32) (items : List Item) :
    intervals base (items.map (Item.entry table)) = (denoted table base items).filter fun i => i.start < i.stop := by
  have hempty (i : Interval) : i.isEmpty = !decide (i.start < i.stop) := by
    rw [Interval.isEmpty, ← decide_not]
    exact decide_eq_decide.mpr UInt32.not_lt.symm
  induction items generalizing base with
  | nil => rfl
  | cons item rest ih =>
    cases item with
    | setBase base => exact ih _
    | interval listed =>
      have hcons : intervals base ((Item.interval listed :: rest).map (Item.entry table)) =
          if (listed.interval table base).isEmpty then intervals base (rest.map (Item.entry table))
          else listed.interval table base :: intervals base (rest.map (Item.entry table)) := by
        cases listed <;> rfl
      rw [hcons, ih, denoted, List.filter_cons, hempty]
      cases decide ((listed.interval table base).start < (listed.interval table base).stop) <;> rfl

theorem yields_indexed {number : UInt64} (h : addressAt number = .ok (table number)) :
    Yields (readIndexed addressAt) (writeUnsigned number.toNat) (table number) := by
  apply (yields_unsigned64 number).bind_last
  rw [h]
  exact .pure _

theorem yields_entry {item : Item} (h : ∀ number ∈ item.numbers, addressAt number = .ok (table number)) :
    Yields (readEntry addressAt) item.write (some (item.entry table)) := by
  apply (yields_byte item.kind).bind
  cases item with
  | setBase base =>
    cases base with
    | address place => exact (yields_word place).map _
    | numbered number => exact (yields_indexed (h number (by simp [Item.numbers, ListedBase.numbers]))).map _
  | interval listed =>
    cases listed with
    | offsets start stop => exact (yields_unsigned32 start).bind ((yields_unsigned32 stop).map _)
    | ends start stop => exact (yields_word start).bind ((yields_word stop).map _)
    | length start count => exact (yields_word start).bind ((yields_unsigned32 count).map _)
    | numberedEnds start stop =>
      have hstart := h start (by simp [Item.numbers, ListedInterval.numbers])
      have hstop := h stop (by simp [Item.numbers, ListedInterval.numbers])
      exact (yields_indexed hstart).bind ((yields_indexed hstop).map _)
    | numberedLength start count =>
      have hstart := h start (by simp [Item.numbers, ListedInterval.numbers])
      exact (yields_indexed hstart).bind ((yields_unsigned32 count).map _)

theorem yields_oldEntry (item : OldItem) : Yields readOldEntry item.write (some (item.item.entry table)) := by
  cases item with
  | setBase base => exact (yields_word 0xffffffff).bind ((yields_word base).bind_last (.pure _))
  | interval pair =>
    apply (yields_word pair.start).bind
    apply (yields_word pair.stop).bind_last
    rw [if_neg pair.not_end, if_neg pair.not_base]
    exact .pure _

theorem yields_oldEnd : Yields readOldEntry oldEnd none :=
  (yields_word 0).bind ((yields_word 0).bind_last (.pure _))

theorem read_written (items : List Item) (front back : List UInt8) {offset : UInt32}
    (hoffset : offset.toNat = front.length) (base : UInt32)
    (htable : ∀ item ∈ items, ∀ number ∈ item.numbers, addressAt number = .ok (table number)) :
    read (front ++ (write items ++ back)).toArray offset base addressAt =
      .ok ((denoted table base items).filter fun i => i.start < i.stop) := by
  have hlist : Yields (untilNone (readEntry addressAt)) (write items) (items.map (Item.entry table)) :=
    yields_untilNone (fun item hmem => yields_entry (htable item hmem)) (fun item => by simp [Item.write])
      ((yields_byte 0).bind (.pure _))
  rw [read, hoffset, hlist.eval_eq, ← intervals_map_entry]
  rfl

theorem readOld_written (items : List OldItem) (front back : List UInt8) {offset : UInt32}
    (hoffset : offset.toNat = front.length) (base : UInt32) (table : UInt64 → UInt32) :
    readOld (front ++ (writeOld items ++ back)).toArray offset base =
      .ok ((denoted table base (items.map OldItem.item)).filter fun i => i.start < i.stop) := by
  have hlist : Yields (untilNone readOldEntry) (writeOld items) (items.map fun item => item.item.entry table) :=
    yields_untilNone (fun item _ => yields_oldEntry item)
      (fun item => by cases item <;> simp [OldItem.write, writeOldBase, OldPair.write, wordBytes_ne_nil]) yields_oldEnd
  rw [readOld, hoffset, hlist.eval_eq, ← intervals_map_entry, List.map_map]
  rfl

/--
A list gives exactly the intervals that its entries denote, but for empty ones. Where all its entries can be
written in the old format, the list gives the same in both.
-/
theorem ranges_of_write (items : List Item) (front back : List UInt8) (offset base : UInt32)
    (addressAt : UInt64 → Except Fault UInt32) (table : UInt64 → UInt32) (hoffset : offset.toNat = front.length)
    (htable : ∀ item ∈ items, ∀ number ∈ item.numbers, addressAt number = .ok (table number)) :
    read (front ++ (write items ++ back)).toArray offset base addressAt =
        .ok ((denoted table base items).filter fun i => i.start < i.stop) ∧
      ∀ oldItems oldFront oldBack (oldOffset : UInt32), items = oldItems.map OldItem.item →
        oldOffset.toNat = oldFront.length →
          readOld (oldFront ++ (writeOld oldItems ++ oldBack)).toArray oldOffset base =
            read (front ++ (write items ++ back)).toArray offset base addressAt := by
  have hread := read_written items front back hoffset base htable
  refine ⟨hread, ?_⟩
  intro oldItems oldFront oldBack oldOffset hitems holdOffset
  rw [hread, hitems]
  exact readOld_written oldItems oldFront oldBack holdOffset base table

/-- Two addresses; there is no third one. -/
def sampleTable (number : UInt64) : UInt32 := if number = 0 then 0x4000 else 0x20000000

def sampleAddressAt (number : UInt64) : Except Fault UInt32 :=
  if number < 2 then .ok (sampleTable number) else .error (.malformed ".debug_addr" 0 (.addressIndex number))

/-- The base changes twice, a sum wraps around and two intervals are empty. -/
def sampleItems : List Item :=
  [.interval (.offsets 0x10 0x20), .setBase (.numbered 1), .interval (.offsets 8 300),
    .interval (.numberedLength 0 4), .interval (.ends 9 9), .setBase (.address 0xfffffff0),
    .interval (.offsets 0x20 0x30), .interval (.offsets 4 0x30), .interval (.numberedEnds 0 1),
    .interval (.length 0x100 0x80)]

def samplePair : OldPair := ⟨0x10, 0x20, by decide, by decide⟩

def sampleOldItems : List OldItem :=
  [.interval ⟨0, 4, by decide, by decide⟩, .setBase 0x8000, .interval samplePair]

theorem ranges_of_write_sample :
    (1 : UInt32).toNat = [0xaa].length ∧
      (∀ item ∈ sampleItems, ∀ number ∈ item.numbers, sampleAddressAt number = .ok (sampleTable number)) ∧
      read ([0xaa] ++ (write sampleItems ++ [0xbb])).toArray 1 0x1000 sampleAddressAt =
        .ok [⟨0x1010, 0x1020⟩, ⟨0x20000008, 0x2000012c⟩, ⟨0x4000, 0x4004⟩, ⟨0x10, 0x20⟩, ⟨0x4000, 0x20000000⟩,
          ⟨0x100, 0x180⟩] ∧
      readOld ([] ++ (writeOld sampleOldItems ++ [])).toArray 0 0x1000 =
        read ([0xaa] ++ (write (sampleOldItems.map OldItem.item) ++ [0xbb])).toArray 1 0x1000 sampleAddressAt := by
  have htable : ∀ item ∈ sampleItems, ∀ number ∈ item.numbers, sampleAddressAt number = .ok (sampleTable number) := by
    simp [sampleItems, Item.numbers, ListedBase.numbers, ListedInterval.numbers, sampleAddressAt]
  have holdTable : ∀ item ∈ sampleOldItems.map OldItem.item, ∀ number ∈ item.numbers,
      sampleAddressAt number = .ok (sampleTable number) := by
    simp [OldItem.numbers_item]
  have hread := (ranges_of_write sampleItems [0xaa] [0xbb] 1 0x1000 sampleAddressAt sampleTable rfl htable).1
  have hold := (ranges_of_write (sampleOldItems.map OldItem.item) [0xaa] [0xbb] 1 0x1000 sampleAddressAt sampleTable
    rfl holdTable).2 sampleOldItems [] [] 0 rfl rfl
  exact ⟨rfl, htable, hread, hold⟩

end RangeList

end FirmwareDebug
