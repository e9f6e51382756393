import FirmwareDebug.Proofs.BitField

/-!
# How wide bit fields may be

The bits of a field that lies in one number are all shown, with their sign, as long as there are fewer than 64 of
them. The mask of a field has 63 bits at most, and of a number of 64 bits that is a field the highest one is lost.
-/

namespace FirmwareDebug

theorem mod_two_pow_min (n count width : Nat) : n % 2 ^ min count width = n % 2 ^ count % 2 ^ width := by
  refine Nat.eq_of_testBit_eq fun i => ?_
  simp only [Nat.testBit_mod_two_pow, Nat.lt_min, Bool.decide_and, ← Bool.and_assoc]
  rw [Bool.and_comm (decide (i < count))]

namespace Shape

/-- An integer of some bits of a number that can be shown; no character is shown behind it. -/
structure IsField (shape : Shape) (encoding : BaseEncoding) : Prop where
  scalar : shape.IsScalar
  encoding_eq : shape.encoding = some encoding
  isInteger : encoding ≠ .boolean ∧ encoding ≠ .float
  plain : ¬ ((encoding = .signedChar ∨ encoding = .unsignedChar) ∧ shape.size = 1)
  unnamed : shape.enumerators = []
  sized : IsNumberSize shape.size
  count_pos : 0 < shape.bitSize.toNat
  inside : shape.bitPosition.toNat + shape.bitSize.toNat ≤ 8 * shape.size.toNat

/-- The bits of a field, as a number. -/
def ownBits (shape : Shape) (image : List UInt8) : Nat :=
  bitsAt (image.take shape.size.toNat) shape.bitPosition.toNat shape.bitSize.toNat

/-- All bits of a field are shown, as the integer that they stand for. -/
def ShowsAllBits (shape : Shape) (encoding : BaseEncoding) (image : List UInt8) : Prop :=
  (Layout.tree .decimal ⟨shape, []⟩ (image.map some)).value =
    some (toString (encoding.integer shape.bitSize.toNat (shape.ownBits image)))

variable {shape : Shape} {encoding : BaseEncoding} {image : List UInt8}

theorem ownBits_lt (shape : Shape) (image : List UInt8) : shape.ownBits image < 2 ^ shape.bitSize.toNat :=
  Nat.mod_lt _ (Nat.two_pow_pos _)

namespace IsField

variable (hfield : shape.IsField encoding)

include hfield

theorem count_le : shape.bitSize.toNat ≤ 64 := by
  have hsize := hfield.sized.le_eight
  have hinside := hfield.inside
  omega

theorem position_lt : shape.bitPosition.toNat < 64 := by
  have hsize := hfield.sized.le_eight
  have hpos := hfield.count_pos
  have hinside := hfield.inside
  omega

theorem fieldText_eq (base : NumericBase) (count raw : Nat) :
    fieldText base encoding shape.size count raw = integerOfBits base encoding count raw := if_neg hfield.plain

theorem value_eq (himage : shape.size.toNat ≤ image.length) (base : NumericBase) :
    (Layout.tree base ⟨shape, []⟩ (image.map some)).value =
      some (integerOfBits base encoding shape.bitSize.toNat (shape.ownBits image % 2 ^ 63)) := by
  have hlength : (image.take shape.size.toNat).length ≤ 8 := by
    have hsize := hfield.sized.le_eight
    rw [List.length_take]
    omega
  rw [Layout.value_of_isScalar hfield.scalar, scalarText, readNumber_available hfield.sized himage]
  show some (shape.bitsText base _) = _
  rw [bitsText_taken hfield.encoding_eq hfield.isInteger hfield.unnamed hfield.count_pos hfield.count_le
    hfield.position_lt, hfield.fieldText_eq, toNat_ofNat_littleEndian hlength, mod_two_pow_min]
  rfl

end IsField

/--
A bit field of integers is shown with all its bits if and only if there are fewer than 64 of them, or the highest
one of them is not set.
-/
theorem showsAllBits_iff (hfield : shape.IsField encoding) (himage : shape.size.toNat ≤ image.length) :
    shape.ShowsAllBits encoding image ↔ shape.bitSize.toNat < 64 ∨ shape.ownBits image < 2 ^ 63 := by
  have hown := shape.ownBits_lt image
  rw [ShowsAllBits, hfield.value_eq himage]
  constructor
  · intro h
    rcases Nat.lt_or_ge shape.bitSize.toNat 64 with hnarrow | hwide
    · exact .inl hnarrow
    · right
      have hsame : encoding.integer shape.bitSize.toNat (shape.ownBits image % 2 ^ 63) =
          encoding.integer shape.bitSize.toNat (shape.ownBits image) := int_eq_of_repr (Option.some_inj.mp h)
      have hkept := Nat.lt_of_le_of_lt (Nat.mod_le (shape.ownBits image) (2 ^ 63)) hown
      rw [← integer_inj hkept hown hsame]
      exact Nat.mod_lt _ (Nat.two_pow_pos _)
  · intro h
    have hlow : shape.ownBits image < 2 ^ 63 := by
      rcases h with hnarrow | hlow
      · exact Nat.lt_of_lt_of_le hown (Nat.pow_le_pow_right (by omega) (by omega))
      · exact hlow
    rw [Nat.mod_eq_of_lt hlow]
    rfl

/-- Five bits of a signed word behind its lowest three. -/
def fiveBits : Shape := { typeText := "int", size := 4, encoding := some .signed, bitPosition := 3, bitSize := 5 }

/-- All bits of an unsigned number of eight bytes. -/
def wholeWidth : Shape := { typeText := "t", size := 8, encoding := some .unsigned, bitSize := 64 }

theorem isField_fiveBits : fiveBits.IsField .signed :=
  ⟨⟨rfl, rfl, rfl, rfl, rfl⟩, rfl, by decide, by decide, rfl, by decide, by decide, by decide⟩

theorem isField_wholeWidth : wholeWidth.IsField .unsigned :=
  ⟨⟨rfl, rfl, rfl, rfl, rfl⟩, rfl, by decide, by decide, rfl, by decide, by decide, by decide⟩

theorem showsAllBits_fiveBits : fiveBits.IsField .signed ∧ fiveBits.ShowsAllBits .signed [0xfd, 0, 0, 0] :=
  ⟨isField_fiveBits, (showsAllBits_iff isField_fiveBits (by decide)).mpr (.inl (by decide))⟩

/-- The highest one of 64 bits that are all set is lost. -/
theorem not_showsAllBits_wholeWidth : wholeWidth.IsField .unsigned ∧
    (Layout.tree .decimal ⟨wholeWidth, []⟩ ((List.replicate 8 0xff).map some)).value = some "9223372036854775807" ∧
      ¬ wholeWidth.ShowsAllBits .unsigned (List.replicate 8 0xff) := by
  have hlength : wholeWidth.size.toNat ≤ (List.replicate 8 (0xff : UInt8)).length := by decide
  have hvalue := isField_wholeWidth.value_eq hlength .decimal
  refine ⟨isField_wholeWidth, hvalue.trans (by decide +kernel), fun h => ?_⟩
  have htexts := hvalue.symm.trans h
  revert htexts
  decide +kernel

end Shape

end FirmwareDebug
