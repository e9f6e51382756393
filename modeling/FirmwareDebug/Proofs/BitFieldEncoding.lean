import FirmwareDebug.Proofs.BitField
import FirmwareDebug.Proofs.Written

/-!
# Two ways to write the place of a bit field

A member may give the storage unit of its bits and count them from the unit's highest bit, or count them from the
first bit of the aggregate. Either way its place is found, and the member is laid out alike.
-/

namespace FirmwareDebug

/-- Bits in a storage unit that begins at a multiple of its size. -/
structure BitPlace where
  /-- Where the unit begins in the aggregate, in bytes. -/
  unitStart : Nat
  /-- The size of the unit, in bytes. -/
  unitSize : Nat
  /-- Where the bits begin, counted from the lowest bit of the unit. -/
  position : Nat
  count : Nat
  sized : unitSize = 1 ∨ unitSize = 2 ∨ unitSize = 4 ∨ unitSize = 8
  aligned : unitSize ∣ unitStart
  count_pos : 0 < count
  inside : position + count ≤ 8 * unitSize
  fits : 8 * unitStart + position < 2 ^ 32

/-- The value is a place in the aggregate: a number, or an operation that adds one or gives one. -/
inductive LocatesAt : AttributeValue → Nat → Prop
  | number {value : AttributeValue} {n : UInt64} (h : value.constant? = some n) : LocatesAt value n.toNat
  | operation {value : AttributeValue} {opcode : UInt8} {groups : List UInt8} {start : Nat}
      (hblock : value.block? = some (opcode :: groups)) (hopcode : opcode = 0x23 ∨ opcode = 0x10)
      (hgroups : Leb128.UnsignedGroups groups start) (hlength : groups.length ≤ 10) : LocatesAt value start

/-- The layout of a member of which only the bits at a place are used. -/
def Layout.atBits (own : Layout) (name : String) (place : BitPlace) : Layout :=
  { own with
    name
    memberOffset := UInt32.ofNat place.unitStart
    size := UInt32.ofNat place.unitSize
    bitPosition := UInt32.ofNat place.position
    bitSize := UInt32.ofNat place.count }

/-- What a layout says about the place of its bits. -/
structure Layout.IsAt (layout : Layout) (place : BitPlace) : Prop where
  memberOffset_eq : layout.memberOffset.toNat = place.unitStart
  size_eq : layout.size.toNat = place.unitSize
  bitPosition_eq : layout.bitPosition.toNat = place.position
  bitSize_eq : layout.bitSize.toNat = place.count

/-- How a member is shown in the bytes of its aggregate. -/
def Layout.shownIn (layout : Layout) (base : NumericBase) (bytes : PartialBytes) : ValueTree :=
  layout.tree base (bytes.slice layout.memberOffset.toNat layout.size.toNat)

namespace BitPlace

variable (place : BitPlace)

theorem unitSize_le : place.unitSize ≤ 8 := by
  rcases place.sized with h | h | h | h <;> omega

theorem isNumberSize : IsNumberSize (UInt32.ofNat place.unitSize) := by
  rcases place.sized with h | h | h | h <;> rw [h] <;> decide

@[simp]
theorem toNat_unitSize : (UInt32.ofNat place.unitSize).toNat = place.unitSize :=
  UInt32.toNat_ofNat_of_lt' (Nat.lt_of_le_of_lt place.unitSize_le (by decide))

@[simp]
theorem toNat_unitStart : (UInt32.ofNat place.unitStart).toNat = place.unitStart :=
  UInt32.toNat_ofNat_of_lt' (by have h := place.fits; rw [UInt32.size]; omega)

@[simp]
theorem toNat_position : (UInt32.ofNat place.position).toNat = place.position :=
  UInt32.toNat_ofNat_of_lt' (by have h := place.fits; rw [UInt32.size]; omega)

@[simp]
theorem toNat_count : (UInt32.ofNat place.count).toNat = place.count :=
  UInt32.toNat_ofNat_of_lt' (by
    have hinside := place.inside
    have hsize := place.unitSize_le
    rw [UInt32.size]
    omega)

theorem isAt_atBits (own : Layout) (name : String) : (own.atBits name place).IsAt place where
  memberOffset_eq := place.toNat_unitStart
  size_eq := place.toNat_unitSize
  bitPosition_eq := place.toNat_position
  bitSize_eq := place.toNat_count

theorem placeFromTop_eq (shape : Shape) :
    shape.placeFromTop (UInt32.ofNat place.unitSize)
        (UInt32.ofNat (8 * place.unitSize - place.position - place.count)) (UInt32.ofNat place.count) =
      { shape with bitPosition := UInt32.ofNat place.position, size := UInt32.ofNat place.unitSize } := by
  have hinside := place.inside
  have hsize := place.unitSize_le
  have hunit : (UInt32.ofNat place.unitSize * 8).toNat = 8 * place.unitSize := by
    rw [UInt32.toNat_mul, place.toNat_unitSize]
    show place.unitSize * 8 % 2 ^ 32 = 8 * place.unitSize
    rw [Nat.mod_eq_of_lt (by omega), Nat.mul_comm]
  have hoffset : (UInt32.ofNat (8 * place.unitSize - place.position - place.count)).toNat =
      8 * place.unitSize - place.position - place.count := UInt32.toNat_ofNat_of_lt' (by rw [UInt32.size]; omega)
  have hposition : saturatingDifference (saturatingDifference (UInt32.ofNat place.unitSize * 8)
      (UInt32.ofNat (8 * place.unitSize - place.position - place.count))) (UInt32.ofNat place.count) =
        UInt32.ofNat place.position := by
    rw [saturatingDifference, saturatingDifference, hunit, hoffset, place.toNat_count,
      UInt32.toNat_ofNat_of_lt' (by rw [UInt32.size]; omega)]
    congr 1
    omega
  rw [Shape.placeFromTop, hposition]

theorem placeFromStart_eq (shape : Shape) :
    shape.placeFromStart (UInt32.ofNat place.unitSize) (UInt32.ofNat (8 * place.unitStart + place.position)) =
      { shape with
        memberOffset := UInt32.ofNat place.unitStart
        bitPosition := UInt32.ofNat place.position
        size := UInt32.ofNat place.unitSize } := by
  obtain ⟨hoffset, hposition⟩ :=
    shape.placeFromStart_toNat place.isNumberSize (UInt32.ofNat (8 * place.unitStart + place.position))
  have hstart : (UInt32.ofNat (8 * place.unitStart + place.position)).toNat = 8 * place.unitStart + place.position :=
    UInt32.toNat_ofNat_of_lt' place.fits
  have hlow : place.position < 8 * place.unitSize := by
    have hinside := place.inside
    have hpos := place.count_pos
    omega
  obtain ⟨units, hunits⟩ := place.aligned
  have hbits : 8 * place.unitStart + place.position = place.position + 8 * place.unitSize * units := by
    rw [hunits, ← Nat.mul_assoc, Nat.add_comm]
  have hdiv : (8 * place.unitStart + place.position) / (8 * place.unitSize) * place.unitSize = place.unitStart := by
    rw [hbits, Nat.add_mul_div_left _ _ (by omega), Nat.div_eq_of_lt hlow, Nat.zero_add, hunits, Nat.mul_comm]
  have hmod : (8 * place.unitStart + place.position) % (8 * place.unitSize) = place.position := by
    rw [hbits, Nat.add_mul_mod_self_left, Nat.mod_eq_of_lt hlow]
  rw [hstart, place.toNat_unitSize, hdiv] at hoffset
  rw [hstart, place.toNat_unitSize, hmod] at hposition
  generalize UInt32.ofNat (8 * place.unitStart + place.position) = start at hoffset hposition ⊢
  rw [← hoffset, ← hposition, UInt32.ofNat_toNat, UInt32.ofNat_toNat]
  rfl

end BitPlace

namespace DebugInfo

variable {info info' : DebugInfo} {entry : UInt32} {name : AttributeName} {place : BitPlace} {own : Layout}

/-! ## What the attributes say -/

/-- An attribute of the entry is a number. -/
def HasNumber (info : DebugInfo) (entry : UInt32) (name : AttributeName) (n : Nat) : Prop :=
  ∃ value, info.constant? entry name = .ok (some value) ∧ value.toNat = n

/-- The member gives its storage unit, and counts its bits from the highest one of that. -/
structure FromTop (info : DebugInfo) (member : UInt32) (place : BitPlace) : Prop where
  location : ∃ value, info.attribute? member .memberLocation = .ok (some value) ∧ LocatesAt value place.unitStart
  size : info.HasNumber member .byteSize place.unitSize
  count : info.HasNumber member .bitSize place.count
  offset : info.HasNumber member .bitOffset (8 * place.unitSize - place.position - place.count)

/-- The member counts its bits from the first one of the aggregate. Where it has a location, that does not matter. -/
structure FromStart (info : DebugInfo) (member : UInt32) (place : BitPlace) : Prop where
  location : ∃ own, info.memberOffset member = .ok own
  size : info.constant? member .byteSize = .ok none ∨ info.HasNumber member .byteSize place.unitSize
  count : info.HasNumber member .bitSize place.count
  notFromTop : info.constant? member .bitOffset = .ok none
  offset : info.HasNumber member .dataBitOffset (8 * place.unitStart + place.position)

theorem word?_eq {n : Nat} (h : info.HasNumber entry name n) : info.word? entry name = .ok (some (UInt32.ofNat n)) := by
  obtain ⟨value, hvalue, rfl⟩ := h
  rw [word?, hvalue]
  rfl

theorem word?_eq_none (h : info.constant? entry name = .ok none) : info.word? entry name = .ok none := by
  rw [word?, h]
  rfl

theorem memberOffset_eq {value : AttributeValue} {start : Nat}
    (h : info.attribute? entry .memberLocation = .ok (some value)) (hvalue : LocatesAt value start)
    (hfits : start < 2 ^ 32) : info.memberOffset entry = .ok (UInt32.ofNat start) := by
  rw [memberOffset, h]
  cases hvalue with
  | number hnumber =>
    cases value with
    | constant n =>
      cases hnumber
      rfl
    | signed n =>
      cases hnumber
      rfl
    | _ => cases hnumber
  | operation hblock hopcode hgroups hlength =>
    rename_i opcode groups
    have hnumber := Read.yields_unsigned hgroups hlength (by omega)
    have hread : Read.Yields (do
        let opcode ← Read.byte
        if opcode ≠ 0x23 ∧ opcode ≠ 0x10 then Read.malformed (.memberLocation opcode)
        return (← Read.unsigned).toUInt32) (opcode :: groups) (UInt64.ofNat start).toUInt32 := by
      refine (Read.yields_byte opcode).bind ?_
      rw [if_neg (by tauto)]
      exact hnumber.map UInt64.toUInt32
    have heval := hread.eval_eq "DW_AT_data_member_location" [] []
    have hword : (UInt64.ofNat start).toUInt32 = UInt32.ofNat start := by
      apply UInt32.toNat_inj.mp
      rw [UInt64.toNat_toUInt32, UInt64.toNat_ofNat_of_lt' (by rw [UInt64.size]; omega),
        UInt32.toNat_ofNat_of_lt' hfits]
      exact Nat.mod_eq_of_lt hfits
    rw [List.append_nil, List.nil_append, hword] at heval
    simp only [bind, Except.bind, hblock]
    exact heval

/-! ## Members -/

theorem placeMember_fromTop (h : info.FromTop entry place) (text : String) :
    info.placeMember entry text own = .ok (own.atBits text place) := by
  obtain ⟨value, hvalue, hlocates⟩ := h.location
  have hfits := place.fits
  have hlocation := memberOffset_eq hvalue hlocates (by omega)
  simp only [placeMember, placeBitField, hlocation, word?_eq h.count, word?_eq h.size, word?_eq h.offset, bind,
    Except.bind, pure, Except.pure, Option.getD_some, place.placeFromTop_eq]
  rfl

theorem placeMember_fromStart (h : info.FromStart entry place) (hsize : own.size.toNat = place.unitSize)
    (text : String) : info.placeMember entry text own = .ok (own.atBits text place) := by
  obtain ⟨start, hlocation⟩ := h.location
  have hstorage : ∃ size, info.word? entry .byteSize = .ok size ∧
      size.getD own.size = UInt32.ofNat place.unitSize := by
    rcases h.size with hnone | hown
    · exact ⟨none, word?_eq_none hnone, by rw [← hsize, UInt32.ofNat_toNat]; rfl⟩
    · exact ⟨_, word?_eq hown, rfl⟩
  obtain ⟨size, hword, hstorage⟩ := hstorage
  simp only [placeMember, placeBitField, hlocation, word?_eq h.count, hword, word?_eq_none h.notFromTop,
    word?_eq h.offset, bind, Except.bind, pure, Except.pure, hstorage, place.placeFromStart_eq]
  rfl

/-- A member of an aggregate with its name and the layout of its type. -/
structure IsMember (info : DebugInfo) (nodes : TypeGraph) (budget : Nat) (enclosing : List Nat) (index : Nat)
    (node : TypeNode) (name : Option String) (own : Layout) : Prop where
  node_eq : nodes[index]? = some node
  tag_eq : node.tag = .member
  name_eq : info.nodeName node = .ok name
  named : ∃ text, info.typeName nodes index = .ok text
  type_eq : info.layoutFor nodes budget enclosing node.next = .ok own

variable {nodes nodes' : TypeGraph} {budget budget' : Nat} {enclosing enclosing' : List Nat} {index index' : Nat}
  {node node' : TypeNode} {text : Option String}

theorem IsMember.layoutFor_eq (h : info.IsMember nodes budget enclosing index node text own) :
    info.layoutFor nodes (budget + 1) enclosing (some index) =
      info.placeMember node.offset (text.getD "") own := by
  obtain ⟨typeText, htypeText⟩ := h.named
  have hkind : node.kind = .object := by
    rw [TypeNode.kind, h.tag_eq]
    rfl
  rw [layoutFor, Option.bind_some, h.node_eq, Option.map_some]
  show info.nodeLayout (info.layoutFor nodes budget) nodes enclosing index node = _
  simp only [nodeLayout, h.name_eq, htypeText, hkind, h.type_eq, bind, Except.bind]

/--
Two members of one name and one type, whose size is that of the storage unit, have their bits at one place. One gives
the unit and counts the bits from its highest one, the other one counts them from the first one of the aggregate. Both
are laid out at that place, and they are shown alike whatever the bytes of the aggregate are.
-/
theorem layouts_agree (htop : info.FromTop node.offset place) (hstart : info'.FromStart node'.offset place)
    (hmember : info.IsMember nodes budget enclosing index node text own)
    (hmember' : info'.IsMember nodes' budget' enclosing' index' node' text own)
    (hsize : own.size.toNat = place.unitSize) :
    ∃ layout layout', info.layoutFor nodes (budget + 1) enclosing (some index) = .ok layout ∧
      info'.layoutFor nodes' (budget' + 1) enclosing' (some index') = .ok layout' ∧ layout.IsAt place ∧
        layout' = layout ∧ ∀ base bytes, layout'.shownIn base bytes = layout.shownIn base bytes := by
  refine ⟨_, _, ?_, ?_, place.isAt_atBits own (text.getD ""), rfl, fun _ _ => rfl⟩
  · rw [hmember.layoutFor_eq, placeMember_fromTop htop]
  · rw [hmember'.layoutFor_eq, placeMember_fromStart hstart hsize]

/--
A structure of two words with two members that are bits 3 to 7 of its second word. The first one gives that word and
counts from its highest bit, the second one counts from the first bit of the structure.
-/
def bothWays : Sections where
  info := #[35, 0, 0, 0, 4, 0, 0, 0, 0, 0, 4, 1, 2, 4, 7, 3, 8, 4, 102, 0, 12, 0, 0, 0, 4, 4, 5, 24,
    5, 102, 0, 12, 0, 0, 0, 5, 35, 0, 0]
  abbreviations := #[1, 0x11, 1, 0, 0, 2, 0x24, 0, 0x0b, 0x0b, 0x3e, 0x0b, 0, 0, 3, 0x13, 1, 0x0b, 0x0b, 0, 0,
    4, 0x0d, 0, 3, 8, 0x49, 0x13, 0x38, 0x0b, 0x0b, 0x0b, 0x0d, 0x0b, 0x0c, 0x0b, 0, 0,
    5, 0x0d, 0, 3, 8, 0x49, 0x13, 0x0d, 0x0b, 0x6b, 0x0b, 0, 0, 0]

def secondWord : BitPlace := ⟨4, 4, 3, 5, by decide, by decide, by decide, by decide, by decide⟩

theorem facts_bothWays : (build bothWays).toOption.any fun info => (info.typeGraph 15).toOption.any fun nodes =>
    nodes[1]?.any fun old => nodes[3]?.any fun new => (info.layoutFor nodes 1 [0] (some 2)).toOption.any fun own =>
      (old.tag = .member ∧ old.offset = 17 ∧ old.next = some 2 ∧ (info.nodeName old).toOption = some (some "f") ∧
        (info.typeName nodes (some 1)).toOption = some "void") ∧
      (new.tag = .member ∧ new.offset = 28 ∧ new.next = some 2 ∧ (info.nodeName new).toOption = some (some "f") ∧
        (info.typeName nodes (some 3)).toOption = some "void") ∧ own.size = 4 ∧
      ((info.attribute? 17 .memberLocation).toOption = some (some (.constant 4)) ∧
        (info.constant? 17 .byteSize).toOption = some (some 4) ∧
        (info.constant? 17 .bitSize).toOption = some (some 5) ∧
        (info.constant? 17 .bitOffset).toOption = some (some 24)) ∧
      ((info.memberOffset 28).toOption = some 0 ∧ (info.constant? 28 .byteSize).toOption = some none ∧
        (info.constant? 28 .bitSize).toOption = some (some 5) ∧
        (info.constant? 28 .bitOffset).toOption = some none ∧
        (info.constant? 28 .dataBitOffset).toOption = some (some 35)) := by
  decide +kernel

theorem layouts_agree_bothWays : ∃ info nodes old new own, build bothWays = .ok info ∧ info.typeGraph 15 = .ok nodes ∧
    info.FromTop old.offset secondWord ∧ info.FromStart new.offset secondWord ∧
      info.IsMember nodes 1 [0] 1 old (some "f") own ∧ info.IsMember nodes 1 [0] 3 new (some "f") own ∧
        ∃ layout layout', info.layoutFor nodes 2 [0] (some 1) = .ok layout ∧
          info.layoutFor nodes 2 [0] (some 3) = .ok layout' ∧ layout.IsAt secondWord ∧ layout' = layout ∧
            ∀ base bytes, layout'.shownIn base bytes = layout.shownIn base bytes := by
  obtain ⟨info, hbuild, h⟩ := (Option.any_eq_true _ _).mp facts_bothWays
  obtain ⟨nodes, hnodes, h⟩ := (Option.any_eq_true _ _).mp h
  obtain ⟨old, hold, h⟩ := (Option.any_eq_true _ _).mp h
  obtain ⟨new, hnew, h⟩ := (Option.any_eq_true _ _).mp h
  obtain ⟨own, hown, h⟩ := (Option.any_eq_true _ _).mp h
  obtain ⟨⟨holdTag, holdOffset, holdNext, holdName, holdText⟩, ⟨hnewTag, hnewOffset, hnewNext, hnewName, hnewText⟩,
    hsize, ⟨hlocation, holdSize, holdCount, hfromTop⟩, hnewLocation, hnewSize, hnewCount, hnone, hfromStart⟩ :=
    of_decide_eq_true h
  have htop : info.FromTop old.offset secondWord := by
    rw [holdOffset]
    exact ⟨⟨_, ok_of_toOption hlocation, .number (n := 4) rfl⟩, ⟨_, ok_of_toOption holdSize, rfl⟩,
      ⟨_, ok_of_toOption holdCount, rfl⟩, ⟨_, ok_of_toOption hfromTop, rfl⟩⟩
  have hstart : info.FromStart new.offset secondWord := by
    rw [hnewOffset]
    exact ⟨⟨_, ok_of_toOption hnewLocation⟩, .inl (ok_of_toOption hnewSize), ⟨_, ok_of_toOption hnewCount, rfl⟩,
      ok_of_toOption hnone, ⟨_, ok_of_toOption hfromStart, rfl⟩⟩
  have hmember : info.IsMember nodes 1 [0] 1 old (some "f") own :=
    ⟨hold, holdTag, ok_of_toOption holdName, ⟨_, ok_of_toOption holdText⟩, holdNext ▸ ok_of_toOption hown⟩
  have hmember' : info.IsMember nodes 1 [0] 3 new (some "f") own :=
    ⟨hnew, hnewTag, ok_of_toOption hnewName, ⟨_, ok_of_toOption hnewText⟩, hnewNext ▸ ok_of_toOption hown⟩
  exact ⟨info, nodes, old, new, own, ok_of_toOption hbuild, ok_of_toOption hnodes, htop, hstart, hmember, hmember',
    layouts_agree htop hstart hmember hmember' (by rw [hsize]; rfl)⟩

end DebugInfo

end FirmwareDebug
