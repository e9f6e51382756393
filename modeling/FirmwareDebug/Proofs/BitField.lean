import FirmwareDebug.Proofs.Layout
import FirmwareDebug.Proofs.Number

/-!
# Bit fields

A bit field that is placed from the start of its aggregate is taken out of one storage unit, which begins at a
multiple of its size. So its own bits are shown exactly when that unit has a size of which numbers are shown,
holds all of them and ends in the aggregate.
-/

namespace FirmwareDebug

open Text

/-- Some bits as a number; the place counts from the lowest bit of the first byte. -/
def bitsAt (bytes : List UInt8) (start count : Nat) : Nat := littleEndian bytes / 2 ^ start % 2 ^ count

/-- What the number of some bits stands for. -/
def BaseEncoding.integer (encoding : BaseEncoding) (count raw : Nat) : Int :=
  if encoding.isSigned then Int.bmod raw (2 ^ count) else raw

/-- The text of an integer of some bits. -/
def integerOfBits (base : NumericBase) (encoding : BaseEncoding) (count raw : Nat) : String :=
  match base with
  | .hexadecimal => "0x" ++ hex raw
  | .decimal => toString (encoding.integer count raw)

/-- The text of a bit field; where a byte is a character, that is shown behind the integer. -/
def fieldText (base : NumericBase) (encoding : BaseEncoding) (size : UInt32) (count raw : Nat) : String :=
  if (encoding = .signedChar ∨ encoding = .unsignedChar) ∧ size = 1 then
    integerOfBits base encoding count raw ++ " '" ++ characterText (UInt8.ofNat raw) ++ "'"
  else integerOfBits base encoding count raw

/-! ## The text of a bit field -/

theorem isNumeral_integerOfBits (base : NumericBase) (encoding : BaseEncoding) (count raw : Nat) :
    IsNumeral (integerOfBits base encoding count raw) := by
  cases base with
  | hexadecimal => exact isNumeral_hex raw
  | decimal => exact isNumeral_int _

theorem IsNumeral.eq_of_append_blank {a b s t : String} (ha : IsNumeral a) (hb : IsNumeral b)
    (h : a ++ " '" ++ s ++ "'" = b ++ " '" ++ t ++ "'") : a = b := by
  have hfront : ∀ {text : String} (rest : String), IsNumeral text →
      (text ++ " '" ++ rest ++ "'").toList.takeWhile (· ≠ ' ') = text.toList := by
    intro text rest htext
    have hblank : ∀ c ∈ text.toList, decide (c ≠ ' ') = true := by
      intro c hc
      rw [decide_eq_true_iff]
      rintro rfl
      exact absurd (htext.2 _ hc) (by decide)
    rw [String.append_assoc, String.append_assoc, String.toList_append, List.takeWhile_append_of_pos hblank]
    simp
  rw [← String.toList_inj, ← hfront s ha, ← hfront t hb, h]

theorem head_fieldText (base : NumericBase) (encoding : BaseEncoding) (size : UInt32) (count raw : Nat) :
    ∃ c rest, (fieldText base encoding size count raw).toList = c :: rest ∧ c ∈ numeralCharacters := by
  have hnumeral := isNumeral_integerOfBits base encoding count raw
  obtain ⟨c, rest, hrest⟩ := List.exists_cons_of_ne_nil hnumeral.1
  have hc : c ∈ numeralCharacters := hnumeral.2 c (hrest ▸ List.mem_cons_self)
  rw [fieldText]
  split
  · refine ⟨c, rest ++ (" '" ++ (characterText (UInt8.ofNat raw) ++ "'")).toList, ?_, hc⟩
    rw [String.append_assoc, String.append_assoc, String.toList_append, hrest, List.cons_append]
  · exact ⟨c, rest, hrest, hc⟩

@[simp]
theorem integer_zero (encoding : BaseEncoding) (count : Nat) : encoding.integer count 0 = 0 := by
  rw [BaseEncoding.integer]
  split
  · exact Int.zero_bmod
  · rfl

theorem integer_inj {encoding : BaseEncoding} {count m n : Nat} (hm : m < 2 ^ count) (hn : n < 2 ^ count)
    (h : encoding.integer count m = encoding.integer count n) : m = n := by
  rw [BaseEncoding.integer, BaseEncoding.integer] at h
  split at h
  · have hmod := congrArg (· % ((2 ^ count : Nat) : Int)) h
    simp only [Int.bmod_emod] at hmod
    rw [← Int.natCast_mod, ← Int.natCast_mod, Nat.mod_eq_of_lt hm, Nat.mod_eq_of_lt hn] at hmod
    exact Int.natCast_inj.mp hmod
  · exact Int.natCast_inj.mp h

theorem integer_eq_of_fieldText {encoding : BaseEncoding} {size : UInt32} {count m n : Nat}
    (h : fieldText .decimal encoding size count m = fieldText .decimal encoding size count n) :
    encoding.integer count m = encoding.integer count n := by
  apply int_eq_of_repr
  show integerOfBits .decimal encoding count m = integerOfBits .decimal encoding count n
  rw [fieldText, fieldText] at h
  split at h
  · exact (isNumeral_integerOfBits _ _ _ _).eq_of_append_blank (isNumeral_integerOfBits _ _ _ _) h
  · exact h

theorem integer_highest_ne (encoding : BaseEncoding) {count : Nat} (hpos : 0 < count) :
    encoding.integer count (2 ^ (count - 1)) ≠ 0 := by
  have hweight : 0 < 2 ^ (count - 1) := Nat.two_pow_pos _
  rw [BaseEncoding.integer]
  split
  · intro hzero
    obtain ⟨hmod, -, -⟩ := (bmod_pow_eq_iff hpos).mp hzero
    have hdvd : (2 : Int) ^ count ∣ ((2 ^ (count - 1) : Nat) : Int) := by
      rw [Int.modEq_iff_dvd, Int.sub_zero] at hmod
      exact hmod
    have hdvd : 2 ^ count ∣ 2 ^ (count - 1) := by
      rw [← Int.natCast_dvd_natCast, Nat.cast_pow]
      exact hdvd
    have hle := Nat.le_of_dvd hweight hdvd
    have hlt : 2 ^ (count - 1) < 2 ^ count := Nat.pow_lt_pow_right (by omega) (by omega)
    omega
  · exact_mod_cast hweight.ne'

/-! ## Taking bits out of a number -/

namespace Shape

variable {shape : Shape}

/-- Of a bit field 63 bits are taken at most. -/
theorem fieldOf_toNat (hpos : 0 < shape.bitSize.toNat) (hposition : shape.bitPosition.toNat < 64) (raw : UInt64) :
    (shape.fieldOf raw).2 = shape.bitSize ∧
      (shape.fieldOf raw).1.toNat = raw.toNat / 2 ^ shape.bitPosition.toNat % 2 ^ min shape.bitSize.toNat 63 := by
  have hne : shape.bitSize ≠ 0 := by
    intro hzero
    rw [hzero] at hpos
    exact absurd hpos (by decide)
  have hmin : (min shape.bitSize 63).toNat = min shape.bitSize.toNat 63 := by
    have hif : min shape.bitSize 63 = if shape.bitSize ≤ 63 then shape.bitSize else 63 := rfl
    rw [hif, apply_ite UInt32.toNat, Nat.min_def]
    exact if_congr UInt32.le_iff_toNat_le rfl rfl
  have hcount : min shape.bitSize.toNat 63 < 64 := by omega
  rw [fieldOf, if_neg hne, ← hmin]
  rw [← hmin] at hcount
  generalize min shape.bitSize 63 = count at hcount
  refine ⟨rfl, ?_⟩
  have hmask : ((1 : UInt64) <<< count.toUInt64 - 1).toNat = 2 ^ count.toNat - 1 := by
    have hpow : 2 ^ count.toNat < 2 ^ 64 := Nat.pow_lt_pow_right (by omega) hcount
    have hshift : ((1 : UInt64) <<< count.toUInt64).toNat = 2 ^ count.toNat := by
      have hwide : count.toUInt64.toNat < 64 := hcount
      rw [toNat_shiftLeft hwide, UInt64.toNat_one, Nat.one_mul]
      exact Nat.mod_eq_of_lt hpow
    have hone : (1 : UInt64) ≤ 1 <<< count.toUInt64 := by
      rw [UInt64.le_iff_toNat_le, hshift]
      exact Nat.two_pow_pos _
    rw [UInt64.toNat_sub_of_le _ _ hone, hshift]
    rfl
  show (raw >>> shape.bitPosition.toUInt64 &&& ((1 : UInt64) <<< count.toUInt64 - 1)).toNat = _
  have hposition' : shape.bitPosition.toUInt64.toNat % 64 = shape.bitPosition.toNat := Nat.mod_eq_of_lt hposition
  rw [UInt64.toNat_and, hmask, UInt64.toNat_shiftRight, hposition', Nat.and_two_pow_sub_one_eq_mod,
    Nat.shiftRight_eq_div_pow]

theorem bitsText_taken {encoding : BaseEncoding} {base : NumericBase}
    (hencoding : shape.encoding = some encoding) (hencoded : encoding ≠ .boolean ∧ encoding ≠ .float)
    (hnames : shape.enumerators = []) (hpos : 0 < shape.bitSize.toNat) (hle : shape.bitSize.toNat ≤ 64)
    (hposition : shape.bitPosition.toNat < 64) (raw : UInt64) :
    shape.bitsText base raw = fieldText base encoding shape.size shape.bitSize.toNat
      (raw.toNat / 2 ^ shape.bitPosition.toNat % 2 ^ min shape.bitSize.toNat 63) := by
  obtain ⟨hbits, hfield⟩ := fieldOf_toNat hpos hposition raw
  rw [← hfield, bitsText]
  generalize shape.fieldOf raw = taken at *
  obtain ⟨field, bits⟩ := taken
  cases hbits
  have hsign : shape.isSigned = encoding.isSigned := isSigned_of_encoding hencoding
  have hinteger : integerText base field (if shape.isSigned then signExtend field shape.bitSize else field.toInt64)
      shape.isSigned = integerOfBits base encoding shape.bitSize.toNat field.toNat := by
    cases base with
    | hexadecimal => rfl
    | decimal =>
      rw [integerText, integerOfBits, BaseEncoding.integer, hsign]
      split
      · rw [signExtend_toInt hpos hle]
      · rfl
  have hplain : shape.plainText base field (if shape.isSigned then signExtend field shape.bitSize else field.toInt64) =
      fieldText base encoding shape.size shape.bitSize.toNat field.toNat := by
    rw [plainText, hinteger, hencoding, fieldText]
    simp only [Option.some.injEq, hencoded.1, hencoded.2, if_false]
    rfl
  rw [← hplain, hnames]
  rfl

theorem bitsText_field {encoding : BaseEncoding} {base : NumericBase}
    (hencoding : shape.encoding = some encoding) (hencoded : encoding ≠ .boolean ∧ encoding ≠ .float)
    (hnames : shape.enumerators = []) (hpos : 0 < shape.bitSize.toNat) (hlt : shape.bitSize.toNat < 64)
    (hposition : shape.bitPosition.toNat < 64) (raw : UInt64) :
    shape.bitsText base raw = fieldText base encoding shape.size shape.bitSize.toNat
      (raw.toNat / 2 ^ shape.bitPosition.toNat % 2 ^ shape.bitSize.toNat) := by
  rw [bitsText_taken hencoding hencoded hnames hpos hlt.le hposition, Nat.min_eq_left (Nat.le_of_lt_succ hlt)]

end Shape

/-! ## Windows -/

theorem littleEndian_window (bytes : List UInt8) (offset length : Nat) :
    littleEndian ((bytes.drop offset).take length) = littleEndian bytes / 2 ^ (8 * offset) % 2 ^ (8 * length) := by
  rw [littleEndian_take, littleEndian_drop, pow_bytes, pow_bytes]

theorem bitsAt_window (bytes : List UInt8) {offset length position count : Nat} (h : position + count ≤ 8 * length) :
    bitsAt ((bytes.drop offset).take length) position count = bitsAt bytes (8 * offset + position) count := by
  have hlength : 2 ^ (8 * length) = 2 ^ position * 2 ^ (8 * length - position) := by
    rw [← Nat.pow_add]
    congr 1
    omega
  have hdvd : 2 ^ count ∣ 2 ^ (8 * length - position) := Nat.pow_dvd_pow 2 (by omega)
  rw [bitsAt, bitsAt, littleEndian_window, hlength, Nat.mod_mul_right_div_self, Nat.mod_mod_of_dvd _ hdvd,
    Nat.div_div_eq_div_mul, ← Nat.pow_add]

/-- The bytes in which one bit alone is set. -/
def oneBit (size bit : Nat) : List UInt8 := littleEndianBytes size (2 ^ bit)

theorem littleEndian_oneBit {size bit : Nat} (h : bit < 8 * size) : littleEndian (oneBit size bit) = 2 ^ bit := by
  refine littleEndian_littleEndianBytes ?_
  rw [pow_bytes]
  exact Nat.pow_lt_pow_right (by omega) h

theorem littleEndian_window_oneBit {size bit offset length : Nat} (h : bit < 8 * size)
    (hbehind : 8 * (offset + length) ≤ bit) :
    littleEndian (((oneBit size bit).drop offset).take length) = 0 := by
  rw [littleEndian_window, littleEndian_oneBit h, Nat.pow_div (by omega) (by omega)]
  exact Nat.mod_eq_zero_of_dvd (Nat.pow_dvd_pow 2 (by omega))

theorem bitsAt_oneBit {size start count : Nat} (hpos : 0 < count) (h : start + count ≤ 8 * size) :
    bitsAt (oneBit size (start + (count - 1))) start count = 2 ^ (count - 1) := by
  have hlt : 2 ^ (count - 1) < 2 ^ count := Nat.pow_lt_pow_right (by omega) (by omega)
  rw [bitsAt, littleEndian_oneBit (by omega), Nat.pow_add, Nat.mul_div_cancel_left _ (Nat.two_pow_pos start),
    Nat.mod_eq_of_lt hlt]

/-! ## Members that are bit fields -/

theorem Shape.placeFromStart_toNat (shape : Shape) {storage : UInt32} (hstorage : IsNumberSize storage)
    (start : UInt32) :
    (shape.placeFromStart storage start).memberOffset.toNat = start.toNat / (8 * storage.toNat) * storage.toNat ∧
      (shape.placeFromStart storage start).bitPosition.toNat = start.toNat % (8 * storage.toNat) := by
  have hunit : (max (storage * 8) 8).toNat = 8 * storage.toNat := by
    rcases hstorage with rfl | rfl | rfl | rfl <;> decide
  have hstart := start.toNat_lt
  have hdiv := Nat.div_mul_le_self start.toNat (8 * storage.toNat)
  have hmod := Nat.div_add_mod' start.toNat (8 * storage.toNat)
  have hmul : start.toNat / (8 * storage.toNat) * storage.toNat * 8 =
      start.toNat / (8 * storage.toNat) * (8 * storage.toNat) := by
    rw [Nat.mul_assoc, Nat.mul_comm storage.toNat 8]
  have hoffset : (start / max (storage * 8) 8 * (max (storage * 8) 8 / 8)).toNat =
      start.toNat / (8 * storage.toNat) * storage.toNat := by
    rw [UInt32.toNat_mul, UInt32.toNat_div, UInt32.toNat_div, hunit]
    show start.toNat / (8 * storage.toNat) * (8 * storage.toNat / 8) % 2 ^ 32 = _
    rw [Nat.mul_div_cancel_left _ (by omega)]
    exact Nat.mod_eq_of_lt (by omega)
  refine ⟨hoffset, ?_⟩
  have hbits : (start / max (storage * 8) 8 * (max (storage * 8) 8 / 8) * 8).toNat =
      start.toNat / (8 * storage.toNat) * (8 * storage.toNat) := by
    rw [UInt32.toNat_mul, hoffset]
    show start.toNat / (8 * storage.toNat) * storage.toNat * 8 % 2 ^ 32 = _
    rw [hmul]
    exact Nat.mod_eq_of_lt (by omega)
  show (start - start / max (storage * 8) 8 * (max (storage * 8) 8 / 8) * 8).toNat = _
  rw [UInt32.toNat_sub_of_le _ _ (UInt32.le_iff_toNat_le.mpr (by omega)), hbits]
  omega

/-- A node is a type of integers with an encoding and a size, possibly behind other names and qualifiers. -/
inductive IntegerType (info : DebugInfo) (nodes : TypeGraph) (encoding : BaseEncoding) (size : UInt32) :
    Option Nat → Prop
  | base {index : Nat} {node : TypeNode} (hnode : nodes[index]? = some node) (hkind : node.kind = .base)
      (hsize : info.byteSize node.offset = .ok size) (hencoding : info.encoding? node.offset = .ok (some encoding)) :
      IntegerType info nodes encoding size (some index)
  | named {index : Nat} {node : TypeNode} (hnode : nodes[index]? = some node)
      (hkind : node.kind = .typedef ∨ ∃ word, node.kind = .qualifier word)
      (hnext : IntegerType info nodes encoding size node.next) : IntegerType info nodes encoding size (some index)

theorem IntegerType.layout {info : DebugInfo} {nodes : TypeGraph} {encoding : BaseEncoding} {size : UInt32}
    {index : Option Nat} (h : IntegerType info nodes encoding size index) {budget : Nat} {enclosing : List Nat}
    {layout : Layout} (hlayout : info.layoutFor nodes budget enclosing index = .ok layout) :
    ∃ typeText, layout = { typeText, size, encoding := some encoding } := by
  induction h generalizing budget layout with
  | base hnode hkind hsize hencoding =>
    obtain ⟨_, hlayout⟩ := DebugInfo.nodeLayout_of_layoutFor hnode hlayout
    obtain ⟨typeText, size', encoding', hsize', hencoding', rfl⟩ := DebugInfo.nodeLayout_base hkind hlayout
    cases hsize.symm.trans hsize'
    cases hencoding.symm.trans hencoding'
    exact ⟨typeText, rfl⟩
  | named hnode hkind _ ih =>
    obtain ⟨_, hlayout⟩ := DebugInfo.nodeLayout_of_layoutFor hnode hlayout
    obtain ⟨typeText, own, hown, rfl⟩ := DebugInfo.nodeLayout_named hkind hlayout
    obtain ⟨_, rfl⟩ := ih hown
    exact ⟨typeText, rfl⟩

/-- A member of which only some bits are used, placed from the start of the aggregate. -/
structure BitMember (info : DebugInfo) (nodes : TypeGraph) (node : TypeNode) where
  encoding : BaseEncoding
  /-- The size of its type. -/
  typeSize : UInt32
  /-- The size that the member gives itself. -/
  ownSize : Option UInt32
  count : UInt32
  start : UInt32
  isMember : node.tag = .member
  isInteger : encoding ≠ .boolean ∧ encoding ≠ .float
  type : IntegerType info nodes encoding typeSize node.next
  ownSize_eq : info.word? node.offset .byteSize = .ok ownSize
  count_eq : info.word? node.offset .bitSize = .ok (some count)
  count_pos : 0 < count.toNat
  count_lt : count.toNat < 64
  notFromTop : info.word? node.offset .bitOffset = .ok none
  start_eq : info.word? node.offset .dataBitOffset = .ok (some start)

/-- The bit field that a member is whose type is a base type. -/
def BitMember.of? (info : DebugInfo) (nodes : TypeGraph) (node : TypeNode) : Option (BitMember info nodes node) :=
  match hnext : node.next with
  | none => none
  | some next =>
    match htype : nodes[next]?, hown : info.word? node.offset .byteSize, hcount : info.word? node.offset .bitSize,
      htop : info.word? node.offset .bitOffset, hstart : info.word? node.offset .dataBitOffset with
    | some type, .ok ownSize, .ok (some count), .ok none, .ok (some start) =>
      match hsize : info.byteSize type.offset, hencoding : info.encoding? type.offset with
      | .ok typeSize, .ok (some encoding) =>
        if h : node.tag = .member ∧ type.kind = .base ∧ (encoding ≠ .boolean ∧ encoding ≠ .float) ∧
            0 < count.toNat ∧ count.toNat < 64 then
          some {
            encoding, typeSize, ownSize, count, start
            isMember := h.1
            isInteger := h.2.2.1
            type := hnext ▸ .base htype h.2.1 hsize hencoding
            ownSize_eq := hown
            count_eq := hcount
            count_pos := h.2.2.2.1
            count_lt := h.2.2.2.2
            notFromTop := htop
            start_eq := hstart }
        else none
      | _, _ => none
    | _, _, _, _, _ => none

namespace BitMember

variable {info : DebugInfo} {nodes : TypeGraph} {node : TypeNode} (field : BitMember info nodes node)

/-- The size of the unit out of which the bits are taken. -/
def unitSize : UInt32 := field.ownSize.getD field.typeSize

/-- Where the unit begins, in bytes. -/
def unitStart : Nat := field.start.toNat / (8 * field.unitSize.toNat) * field.unitSize.toNat

/-- Where the bits begin in the unit. -/
def position : Nat := field.start.toNat % (8 * field.unitSize.toNat)

theorem layout {budget : Nat} {enclosing : List Nat} {child : Nat} {layout : Layout} (hnode : nodes[child]? = some node)
    (hlayout : info.layoutFor nodes budget enclosing (some child) = .ok layout) :
    ∃ shape : Shape, layout = { toShape := shape.placeFromStart field.unitSize field.start } ∧ shape.IsScalar ∧
      shape.encoding = some field.encoding ∧ shape.enumerators = [] ∧ shape.bitSize = field.count := by
  have hkind : node.kind = .object := by
    rw [TypeNode.kind, field.isMember]
    rfl
  obtain ⟨_, hlayout⟩ := DebugInfo.nodeLayout_of_layoutFor hnode hlayout
  obtain ⟨name, own, hown, hplaced⟩ := DebugInfo.nodeLayout_object hkind hlayout
  obtain ⟨typeText, rfl⟩ := field.type.layout hown
  simp only [DebugInfo.placeMember, DebugInfo.placeBitField, bind_eq_ok_iff, field.count_eq, field.ownSize_eq,
    field.notFromTop, field.start_eq, Except.ok.injEq, exists_eq_left', pure_eq_ok_iff] at hplaced
  obtain ⟨memberOffset, -, _, rfl, rfl⟩ := hplaced
  exact ⟨_, rfl, ⟨rfl, rfl, rfl, rfl, rfl⟩, rfl, rfl, rfl⟩

/-- The text of the field where its bits have a number. -/
def text (base : NumericBase) (raw : Nat) : String :=
  fieldText base field.encoding field.unitSize field.count.toNat raw

/-- The text of the field's own bits. -/
def ownText (base : NumericBase) (image : List UInt8) : String :=
  field.text base (bitsAt image field.start.toNat field.count.toNat)

/-- What is shown of the field: its text, or what stands in the place of a number that cannot be read. -/
def shown (base : NumericBase) (image : List UInt8) : String :=
  if IsNumberSize field.unitSize then
    if field.unitStart + field.unitSize.toNat ≤ image.length then
      field.text base
        (bitsAt ((image.drop field.unitStart).take field.unitSize.toNat) field.position field.count.toNat)
    else unavailableText
  else unknownSizeText

theorem value_eq_shown {budget : Nat} {enclosing : List Nat} {child : Nat} {layout : Layout}
    (hnode : nodes[child]? = some node) (hlayout : info.layoutFor nodes budget enclosing (some child) = .ok layout)
    (base : NumericBase) (image : List UInt8) :
    (layout.tree base
        (PartialBytes.slice (image.map some) layout.memberOffset.toNat layout.size.toNat)).value =
      some (field.shown base image) := by
  obtain ⟨shape, rfl, hscalar, hencoding, hnames, hcount⟩ := field.layout hnode hlayout
  let placed := shape.placeFromStart field.unitSize field.start
  have hplaced : placed.IsScalar := ⟨hscalar.fixed, hscalar.entered, hscalar.single, hscalar.direct, hscalar.encoded⟩
  rw [Layout.value_of_isScalar hplaced, PartialBytes.slice_available, shown]
  congr 1
  show placed.scalarText base
    (((image.drop placed.memberOffset.toNat).take field.unitSize.toNat).map some) = _
  have hread : placed.size = field.unitSize := rfl
  split_ifs with hsize hlong
  · obtain ⟨hoffset, hposition⟩ : placed.memberOffset.toNat = field.unitStart ∧
        placed.bitPosition.toNat = field.position := shape.placeFromStart_toNat hsize field.start
    have hbits : placed.bitSize = field.count := hcount
    have hlen : ((image.drop field.unitStart).take field.unitSize.toNat).length = field.unitSize.toNat := by
      rw [List.length_take, List.length_drop]
      omega
    have hlow : field.position < 8 * field.unitSize.toNat := Nat.mod_lt _ (by have h := hsize.pos; omega)
    have hle := hsize.le_eight
    have hpos := field.count_pos
    have hlt := field.count_lt
    rw [Shape.scalarText, hread, hoffset, readNumber_available hsize hlen.ge, List.take_of_length_le hlen.le]
    show placed.bitsText base _ = _
    rw [placed.bitsText_field hencoding field.isInteger hnames (by rw [hbits]; exact hpos)
      (by rw [hbits]; exact hlt) (by omega), hread, hbits, hposition, toNat_ofNat_littleEndian (by omega)]
    rfl
  · obtain ⟨hoffset, -⟩ : placed.memberOffset.toNat = field.unitStart ∧ _ :=
      shape.placeFromStart_toNat hsize field.start
    have hpos := hsize.pos
    have hlen : ((image.drop field.unitStart).take field.unitSize.toNat).length < field.unitSize.toNat := by
      rw [List.length_take, List.length_drop]
      omega
    rw [Shape.scalarText, hread, hoffset, readNumber_short hsize hlen]
  · rw [Shape.scalarText, hread, readNumber_unknown hsize]

/-- All bits of the field lie in one unit of a size of which numbers are shown, and the unit in the aggregate. -/
def InUnit (size : UInt32) : Prop :=
  IsNumberSize field.unitSize ∧ field.position + field.count.toNat ≤ 8 * field.unitSize.toNat ∧
    field.unitStart + field.unitSize.toNat ≤ size.toNat

theorem start_eq_position : 8 * field.unitStart + field.position = field.start.toNat := by
  rw [unitStart, position, ← Nat.mul_assoc, Nat.mul_comm 8, Nat.mul_assoc]
  exact Nat.div_add_mod' _ _

theorem shown_of_inUnit {size : UInt32} {image : List UInt8} (h : field.InUnit size)
    (himage : image.length = size.toNat) (base : NumericBase) :
    field.shown base image = field.ownText base image := by
  obtain ⟨hsize, hfits, hinside⟩ := h
  rw [shown, if_pos hsize, if_pos (himage ▸ hinside), bitsAt_window image hfits, start_eq_position, ownText]

theorem ne_text {other : String} {first : Char} (hother : other.toList.head? = some first)
    (hfirst : first ∉ numeralCharacters) (base : NumericBase) (raw : Nat) : other ≠ field.text base raw := by
  obtain ⟨c, rest, htext, hc⟩ := head_fieldText base field.encoding field.unitSize field.count.toNat raw
  rintro rfl
  rw [text, htext] at hother
  cases hother
  exact hfirst hc

theorem inUnit_of_shown {size : UInt32} (hinside : field.start.toNat + field.count.toNat ≤ 8 * size.toNat)
    (h : ∀ image : List UInt8, image.length = size.toNat →
      field.shown .decimal image = field.ownText .decimal image) : field.InUnit size := by
  -- The bytes in which the highest bit of the field alone is set tell all three ways to miss it.
  let image := oneBit size.toNat (field.start.toNat + (field.count.toNat - 1))
  have hlen : image.length = size.toNat := length_littleEndianBytes _ _
  have hpos := field.count_pos
  have hshown := h image hlen
  rw [ownText, bitsAt_oneBit hpos hinside, shown] at hshown
  split_ifs at hshown with hsize hlong
  · refine ⟨hsize, ?_, hlen ▸ hlong⟩
    by_contra hstraddles
    have hstart := field.start_eq_position
    rw [bitsAt, littleEndian_window_oneBit (by omega) (by omega), Nat.zero_div, Nat.zero_mod] at hshown
    have hhighest := integer_eq_of_fieldText hshown.symm
    exact integer_highest_ne field.encoding hpos (hhighest.trans (integer_zero _ _))
  · exact absurd hshown (field.ne_text rfl (by decide) _ _)
  · exact absurd hshown (field.ne_text rfl (by decide) _ _)

/-- Whatever the bytes of the aggregate are, its part with a number shows the field's own bits as an integer. -/
def ShowsOwnBits (layout : Layout) (k : Nat) : Prop :=
  ∀ base (image : List UInt8), image.length = layout.size.toNat →
    ((layout.tree base (image.map some)).parts[k]?).bind ValueTree.value = some (field.ownText base image)

end BitMember

namespace DebugInfo

theorem value_of_member {info : DebugInfo} {nodes : TypeGraph} {index k child : Nat} {node member : TypeNode}
    {keyword : String} {layout : Layout} (hnode : nodes[index]? = some node)
    (hkind : node.kind = .aggregate keyword) (hlayout : info.layoutOf nodes index = .ok layout)
    (hplace : (node.children.filter (isMember nodes))[k]? = some child) (hmember : nodes[child]? = some member)
    (field : BitMember info nodes member) (base : NumericBase) (image : List UInt8) :
    ((layout.tree base (image.map some)).parts[k]?).bind ValueTree.value = some (field.shown base image) := by
  obtain ⟨_, hlayout⟩ := nodeLayout_of_layoutFor hnode hlayout
  obtain ⟨typeText, size, members, -, hmembers, rfl⟩ := nodeLayout_aggregate hkind (List.not_mem_nil) hlayout
  obtain ⟨own, hown, hownLayout⟩ := getElem?_of_forall₂ hmembers hplace
  have hne : members ≠ [] := by
    rintro rfl
    cases hown
  rw [Layout.parts_of_members rfl rfl rfl rfl hne, Layout.getElem?_memberTrees, hown, Option.map_some,
    Option.bind_some, field.value_eq_shown hmember hownLayout]

/--
A member of an aggregate that is a bit field of integers, placed from the start of the aggregate and inside it,
shows its own bits for all bytes if and only if they lie in one unit that ends in the aggregate.
-/
theorem showsOwnBits_iff {info : DebugInfo} {nodes : TypeGraph} {index k child : Nat} {node member : TypeNode}
    {keyword : String} {layout : Layout} (hnode : nodes[index]? = some node)
    (hkind : node.kind = .aggregate keyword) (hlayout : info.layoutOf nodes index = .ok layout)
    (hplace : (node.children.filter (isMember nodes))[k]? = some child) (hmember : nodes[child]? = some member)
    (field : BitMember info nodes member)
    (hinside : field.start.toNat + field.count.toNat ≤ 8 * layout.size.toNat) :
    field.ShowsOwnBits layout k ↔ field.InUnit layout.size := by
  have hvalue := value_of_member hnode hkind hlayout hplace hmember field
  constructor
  · intro h
    refine field.inUnit_of_shown hinside fun image himage => ?_
    exact Option.some_inj.mp ((hvalue .decimal image).symm.trans (h .decimal image himage))
  · intro h base image himage
    rw [hvalue base image, field.shown_of_inUnit h himage]

/--
Three bit fields of one word in five bytes without gaps. The first one lies in a unit, the second one lies in two,
and the unit of the third one reaches behind the last byte.
-/
def packed : Sections where
  info := #[42, 0, 0, 0, 4, 0, 0, 0, 0, 0, 4, 1, 2, 4, 7, 3, 5, 4, 97, 0, 12, 0, 0, 0, 30, 0,
    4, 98, 0, 12, 0, 0, 0, 4, 30, 4, 99, 0, 12, 0, 0, 0, 6, 34, 0, 0]
  abbreviations := #[1, 0x11, 1, 0, 0, 2, 0x24, 0, 0x0b, 0x0b, 0x3e, 0x0b, 0, 0, 3, 0x13, 1, 0x0b, 0x0b, 0, 0,
    4, 0x0d, 0, 3, 8, 0x49, 0x13, 0x0d, 0x0b, 0x6b, 0x0b, 0, 0, 0]

def packedImage : List UInt8 := [0, 0, 0, 0xc0, 3]

/-- What is known of a field of the sample, what is shown of it and what its own bits are. -/
def packedFacts (k child : Nat) : Option ((TypeKind × UInt32 × Option Nat) × (UInt32 × UInt32 × UInt32) ×
    Option String × String) :=
  (build packed).toOption.bind fun info => (info.typeGraph 15).toOption.bind fun nodes =>
    nodes[0]?.bind fun node => (info.layoutOf nodes 0).toOption.bind fun layout =>
      nodes[child]?.bind fun member => (BitMember.of? info nodes member).map fun field =>
        ((node.kind, layout.size, (node.children.filter (isMember nodes))[k]?),
          (field.start, field.count, field.unitSize),
          ((layout.tree .decimal (packedImage.map some)).parts[k]?).bind ValueTree.value,
          field.ownText .decimal packedImage)

theorem of_packedFacts {k child : Nat} {place : TypeKind × UInt32 × Option Nat} {bits : UInt32 × UInt32 × UInt32}
    {texts : Option String × String} (h : packedFacts k child = some (place, bits, texts)) :
    ∃ info nodes node layout member, ∃ field : BitMember info nodes member, build packed = .ok info ∧
      info.typeGraph 15 = .ok nodes ∧ nodes[0]? = some node ∧ info.layoutOf nodes 0 = .ok layout ∧
        nodes[child]? = some member ∧ (node.kind, layout.size, (node.children.filter (isMember nodes))[k]?) = place ∧
          (field.start, field.count, field.unitSize) = bits ∧
            (((layout.tree .decimal (packedImage.map some)).parts[k]?).bind ValueTree.value,
              field.ownText .decimal packedImage) = texts := by
  obtain ⟨info, hbuild, h⟩ := Option.bind_eq_some_iff.mp h
  obtain ⟨nodes, hnodes, h⟩ := Option.bind_eq_some_iff.mp h
  obtain ⟨node, hnode, h⟩ := Option.bind_eq_some_iff.mp h
  obtain ⟨layout, hlayout, h⟩ := Option.bind_eq_some_iff.mp h
  obtain ⟨member, hmember, h⟩ := Option.bind_eq_some_iff.mp h
  obtain ⟨field, -, h⟩ := Option.map_eq_some_iff.mp h
  obtain ⟨hplace, hbits, htexts⟩ := Prod.mk.inj h |>.imp_right Prod.mk.inj
  exact ⟨info, nodes, node, layout, member, field, ok_of_toOption hbuild, ok_of_toOption hnodes, hnode,
    ok_of_toOption hlayout, hmember, hplace, hbits, htexts⟩

theorem packedFacts_first : packedFacts 0 1 =
    some ((.aggregate "struct", 5, some 1), (0, 30, 4), some "0", "0") := by
  decide +kernel

theorem showsOwnBits_packed : ∃ info nodes node layout member, ∃ field : BitMember info nodes member,
    build packed = .ok info ∧ info.typeGraph 15 = .ok nodes ∧ nodes[0]? = some node ∧
      info.layoutOf nodes 0 = .ok layout ∧ nodes[1]? = some member ∧ layout.size = 5 ∧ field.start = 0 ∧
        field.count = 30 ∧ field.ShowsOwnBits layout 0 := by
  obtain ⟨info, nodes, node, layout, member, field, hbuild, hnodes, hnode, hlayout, hmember, hplace, hbits, -⟩ :=
    of_packedFacts packedFacts_first
  simp only [Prod.mk.injEq] at hplace hbits
  obtain ⟨hkind, hsize, hchild⟩ := hplace
  obtain ⟨hstart, hcount, hunit⟩ := hbits
  have hinside : field.start.toNat + field.count.toNat ≤ 8 * layout.size.toNat := by
    rw [hstart, hcount, hsize]
    decide
  have hfits : field.InUnit layout.size := by
    rw [BitMember.InUnit, BitMember.position, BitMember.unitStart, hstart, hcount, hunit, hsize]
    decide
  exact ⟨info, nodes, node, layout, member, field, hbuild, hnodes, hnode, hlayout, hmember, hsize, hstart, hcount,
    (showsOwnBits_iff hnode hkind hlayout hchild hmember field hinside).mpr hfits⟩

theorem packedFacts_second : packedFacts 1 3 =
    some ((.aggregate "struct", 5, some 3), (30, 4, 4), some "3", "15") := by
  decide +kernel

theorem packedFacts_third : packedFacts 2 4 =
    some ((.aggregate "struct", 5, some 4), (34, 6, 4), some "??", "0") := by
  decide +kernel

/-- A bit field inside the structure of the sample does not show its own bits. -/
def PackedMisses (k child : Nat) : Prop :=
  ∃ info nodes node layout member, ∃ field : BitMember info nodes member, build packed = .ok info ∧
    info.typeGraph 15 = .ok nodes ∧ nodes[0]? = some node ∧ node.kind = .aggregate "struct" ∧
      info.layoutOf nodes 0 = .ok layout ∧ (node.children.filter (isMember nodes))[k]? = some child ∧
        nodes[child]? = some member ∧ field.start.toNat + field.count.toNat ≤ 8 * layout.size.toNat ∧
          ¬ field.ShowsOwnBits layout k

theorem misses_of_packedFacts {k child : Nat} {start count unit : UInt32} {text : Option String} {own : String}
    (h : packedFacts k child = some ((.aggregate "struct", 5, some child), (start, count, unit), text, own))
    (hinside : start.toNat + count.toNat ≤ 40) (hne : text ≠ some own) : PackedMisses k child := by
  obtain ⟨info, nodes, node, layout, member, field, hbuild, hnodes, hnode, hlayout, hmember, hplace, hbits, htexts⟩ :=
    of_packedFacts h
  simp only [Prod.mk.injEq] at hplace hbits htexts
  obtain ⟨hkind, hsize, hchild⟩ := hplace
  obtain ⟨rfl, rfl, -⟩ := hbits
  obtain ⟨rfl, rfl⟩ := htexts
  have hbytes : layout.size.toNat = 5 := by
    rw [hsize]
    rfl
  refine ⟨info, nodes, node, layout, member, field, hbuild, hnodes, hnode, hkind, hlayout, hchild, hmember, ?_, ?_⟩
  · rw [hbytes]
    exact hinside
  · intro hshows
    exact hne (hshows .decimal packedImage hbytes.symm)

theorem not_showsOwnBits_packed : PackedMisses 1 3 ∧ PackedMisses 2 4 :=
  ⟨misses_of_packedFacts packedFacts_second (by decide) (by decide),
    misses_of_packedFacts packedFacts_third (by decide) (by decide)⟩

end DebugInfo

end FirmwareDebug
