import FirmwareDebug.Proofs.LittleEndian
import FirmwareDebug.Value
import Mathlib.Data.Int.ModEq
import Mathlib.Tactic.Ring

/-!
# Shown numbers

What number is read from bytes of which none is missing, what it stands for where its bits have a sign, and
which characters its text has.
-/

namespace FirmwareDebug

open Text

/-! ## Numbers in bytes -/

/-- The sizes of which a number is shown. -/
def IsNumberSize (size : UInt32) : Prop := size = 1 ∨ size = 2 ∨ size = 4 ∨ size = 8

instance (size : UInt32) : Decidable (IsNumberSize size) :=
  inferInstanceAs (Decidable (size = 1 ∨ size = 2 ∨ size = 4 ∨ size = 8))

namespace IsNumberSize

theorem pos {size : UInt32} (h : IsNumberSize size) : 0 < size.toNat := by
  rcases h with rfl | rfl | rfl | rfl <;> decide

theorem le_eight {size : UInt32} (h : IsNumberSize size) : size.toNat ≤ 8 := by
  rcases h with rfl | rfl | rfl | rfl <;> decide

theorem toNat_bits {size : UInt32} (h : IsNumberSize size) : (size * 8).toNat = 8 * size.toNat := by
  rcases h with rfl | rfl | rfl | rfl <;> decide

end IsNumberSize

namespace PartialBytes

theorem first?_available {bytes : List UInt8} {size : Nat} (h : size ≤ bytes.length) :
    first? (bytes.map some) size = some (bytes.take size) := by
  induction size generalizing bytes with
  | zero => simp [first?]
  | succ size ih =>
    cases bytes with
    | nil => simp at h
    | cons b rest =>
      have hrest : size ≤ rest.length := by simpa using h
      simp [first?, ih hrest]

theorem first?_short {bytes : List UInt8} {size : Nat} (h : bytes.length < size) :
    first? (bytes.map some) size = none := by
  induction size generalizing bytes with
  | zero => simp at h
  | succ size ih =>
    cases bytes with
    | nil => rfl
    | cons b rest =>
      have hrest : rest.length < size := by simpa using h
      simp [first?, ih hrest]

@[simp]
theorem slice_available (bytes : List UInt8) (offset length : Nat) :
    slice (bytes.map some) offset length = ((bytes.drop offset).take length).map some := by
  rw [slice, List.map_take, List.map_drop]

end PartialBytes

theorem readNumber_available {bytes : List UInt8} {size : UInt32} (hsize : IsNumberSize size)
    (h : size.toNat ≤ bytes.length) :
    readNumber (bytes.map some) size = .ok (UInt64.ofNat (littleEndian (bytes.take size.toNat))) := by
  have hsizes : size = 1 ∨ size = 2 ∨ size = 4 ∨ size = 8 := hsize
  rw [readNumber, if_pos hsizes, PartialBytes.first?_available h]

theorem readNumber_short {bytes : List UInt8} {size : UInt32} (hsize : IsNumberSize size)
    (h : bytes.length < size.toNat) : readNumber (bytes.map some) size = .error unavailableText := by
  have hsizes : size = 1 ∨ size = 2 ∨ size = 4 ∨ size = 8 := hsize
  rw [readNumber, if_pos hsizes, PartialBytes.first?_short h]

theorem readNumber_unknown {bytes : PartialBytes} {size : UInt32} (hsize : ¬ IsNumberSize size) :
    readNumber bytes size = .error unknownSizeText := by
  have hsizes : ¬ (size = 1 ∨ size = 2 ∨ size = 4 ∨ size = 8) := hsize
  rw [readNumber, if_neg hsizes]

theorem toNat_ofNat_littleEndian {bytes : List UInt8} (h : bytes.length ≤ 8) :
    (UInt64.ofNat (littleEndian bytes)).toNat = littleEndian bytes := by
  have hlt : littleEndian bytes < 256 ^ 8 :=
    Nat.lt_of_lt_of_le (littleEndian_lt bytes) (Nat.pow_le_pow_right (by omega) h)
  exact UInt64.toNat_ofNat_of_lt' hlt

/-! ## Signs -/

/-- Whether numbers with an encoding have a sign. -/
def BaseEncoding.isSigned (encoding : BaseEncoding) : Bool := encoding = .signed || encoding = .signedChar

theorem Shape.isSigned_of_encoding {shape : Shape} {encoding : BaseEncoding} (h : shape.encoding = some encoding) :
    shape.isSigned = encoding.isSigned := by
  rw [isSigned, h, BaseEncoding.isSigned]

@[simp]
theorem toInt_toInt64 (value : UInt64) : value.toInt64.toInt = Int.bmod value.toNat (2 ^ 64) :=
  BitVec.toInt_eq_toNat_bmod value.toBitVec

theorem bmod_mul_right (a : Int) (n k : Nat) (hn : 0 < n) (hk : 0 < k) :
    Int.bmod (a * k) (2 * n * k) = Int.bmod a (2 * n) * k := by
  have hpos : 0 < 2 * n := by omega
  have hlow : -(n : Int) ≤ Int.bmod a (2 * n) := by
    have h := Int.le_bmod (x := a) hpos
    omega
  have hhigh : Int.bmod a (2 * n) < n := by
    have h := Int.bmod_lt (x := a) hpos
    omega
  rw [Int.bmod_eq_iff (Nat.mul_pos hpos hk)]
  have hhalf : ((2 * n * k : Nat) : Int) = 2 * (n * k) := by
    push_cast
    ring
  have hk' : (0 : Int) < k := by omega
  refine ⟨?_, ?_, ?_⟩
  · have h := Int.mul_le_mul_of_nonneg_right hlow hk'.le
    rw [Int.neg_mul] at h
    omega
  · have h := Int.mul_lt_mul_of_pos_right hhigh hk'
    omega
  · rw [← Int.sub_mul, Nat.cast_mul]
    exact Int.mul_dvd_mul_right _ (Int.dvd_bmod_sub_self)

theorem toInt_shiftRight {value : Int64} {count : UInt64} (h : count.toNat < 64) :
    (value >>> count.toInt64).toInt = value.toInt / 2 ^ count.toNat := by
  have hcount : count.toBitVec.toInt = count.toNat := BitVec.toInt_eq_toNat_of_lt (by
    show 2 * count.toNat < 2 ^ 64
    omega)
  have hmod : count.toInt64.toBitVec.smod 64 = count.toBitVec := by
    apply BitVec.eq_of_toInt_eq
    rw [BitVec.toInt_smod]
    show Int.fmod count.toBitVec.toInt 64 = _
    rw [hcount, Int.fmod_eq_emod_of_nonneg _ (by omega)]
    omega
  rw [← Int64.toInt_toBitVec, Int64.toBitVec_shiftRight, hmod, BitVec.sshiftRight', BitVec.toInt_sshiftRight,
    Int.shiftRight_eq_div_pow]
  norm_cast

theorem toNat_shiftLeft {value count : UInt64} (h : count.toNat < 64) :
    (value <<< count).toNat = value.toNat * 2 ^ count.toNat % 2 ^ 64 := by
  rw [UInt64.toNat_shiftLeft, Nat.mod_eq_of_lt h, Nat.shiftLeft_eq]

theorem signExtend_toInt {value : UInt64} {bits : UInt32} (hpos : 0 < bits.toNat) (hle : bits.toNat ≤ 64) :
    (signExtend value bits).toInt = Int.bmod value.toNat (2 ^ bits.toNat) := by
  have hzero : bits ≠ 0 := by
    rintro rfl
    exact absurd hpos (by decide)
  rw [signExtend]
  split
  case isTrue h =>
    have hfull : 64 ≤ bits.toNat := UInt32.le_iff_toNat_le.mp (h.resolve_left hzero)
    rw [toInt_toInt64, show bits.toNat = 64 by omega]
  case isFalse h =>
    have hlt : bits.toNat < 64 := by
      have hnot : ¬ (64 : UInt32).toNat ≤ bits.toNat := fun hle => h (.inr (UInt32.le_iff_toNat_le.mpr hle))
      exact Nat.lt_of_not_le hnot
    have hunused : (64 - bits.toUInt64).toNat = 64 - bits.toNat := by
      have hle : bits.toUInt64 ≤ 64 := UInt64.le_iff_toNat_le.mpr hlt.le
      rw [UInt64.toNat_sub_of_le _ _ hle]
      rfl
    have hweight : 2 ^ 64 = 2 * 2 ^ (bits.toNat - 1) * 2 ^ (64 - bits.toNat) := by
      rw [← Nat.pow_succ', ← Nat.pow_add]
      congr 1
      omega
    have hhalf : 2 ^ bits.toNat = 2 * 2 ^ (bits.toNat - 1) := by
      rw [← Nat.pow_succ', Nat.succ_eq_add_one, Nat.sub_add_cancel hpos]
    rw [toInt_shiftRight (by omega), toInt_toInt64, toNat_shiftLeft (by omega), hunused, Int.natCast_mod,
      Int.emod_bmod, Nat.cast_mul, hweight, bmod_mul_right _ _ _ (Nat.two_pow_pos _) (Nat.two_pow_pos _), ← hhalf,
      Nat.cast_pow]
    exact Int.mul_ediv_cancel _ (pow_ne_zero _ two_ne_zero)

theorem bmod_pow_eq_iff {a c : Int} {n : Nat} (hn : 0 < n) :
    Int.bmod a (2 ^ n) = c ↔ c ≡ a [ZMOD 2 ^ n] ∧ -2 ^ (n - 1) ≤ c ∧ c < 2 ^ (n - 1) := by
  have hdouble : (2 : Int) ^ n = 2 * 2 ^ (n - 1) := by
    rw [← pow_succ', Nat.sub_add_cancel hn]
  rw [Int.bmod_eq_iff (Nat.two_pow_pos n), Int.modEq_comm, Int.modEq_iff_dvd, Nat.cast_pow, Nat.cast_ofNat, hdouble]
  constructor
  · rintro ⟨hlow, hhigh, hdvd⟩
    exact ⟨hdvd, by omega, by omega⟩
  · rintro ⟨hdvd, hlow, hhigh⟩
    exact ⟨by omega, by omega, hdvd⟩

/-! ## Text -/

theorem digit_of_mem_toDigits {b n : Nat} (hb : 1 < b) {c : Char} (h : c ∈ Nat.toDigits b n) :
    ∃ d < b, c = d.digitChar := by
  induction n using Nat.strongRecOn with
  | ind n ih =>
    rw [Nat.toDigits_eq_if hb] at h
    split at h
    · exact ⟨n, ‹_›, by simpa using h⟩
    · rcases List.mem_append.mp h with hfront | hlast
      · exact ih (n / b) (Nat.div_lt_self (by omega) hb) hfront
      · exact ⟨n % b, Nat.mod_lt _ (by omega), by simpa using hlast⟩

/-- The characters of which the text of an integer consists. -/
def numeralCharacters : List Char := "-0123456789abcdefx".toList

theorem digitChar_mem : ∀ d < 16, d.digitChar ∈ numeralCharacters := by decide

theorem mem_numeral_of_digit {b n : Nat} (hb : 1 < b) (hle : b ≤ 16) {c : Char} (h : c ∈ Nat.toDigits b n) :
    c ∈ numeralCharacters := by
  obtain ⟨d, hd, rfl⟩ := digit_of_mem_toDigits hb h
  exact digitChar_mem d (by omega)

theorem mem_numeral_of_repr {n : Nat} {c : Char} (h : c ∈ n.repr.toList) : c ∈ numeralCharacters := by
  rw [Nat.repr, String.toList_ofList] at h
  exact mem_numeral_of_digit (by omega) (by omega) h

theorem repr_ne_nil (n : Nat) : n.repr.toList ≠ [] := by
  rw [Nat.repr, String.toList_ofList]
  exact Nat.toDigits_ne_nil

theorem nat_eq_of_repr {m n : Nat} (h : m.repr = n.repr) : m = n := by
  have hdigits : Nat.toDigits 10 m = Nat.toDigits 10 n := by
    rw [← Nat.toList_repr, h, Nat.toList_repr]
  rw [← Nat.ofDigitChars_ten_toDigits (n := m), hdigits, Nat.ofDigitChars_ten_toDigits]

theorem minus_not_mem_repr (n : Nat) : '-' ∉ n.repr.toList := by
  intro h
  rw [Nat.repr, String.toList_ofList] at h
  obtain ⟨d, hd, hminus⟩ := digit_of_mem_toDigits (by decide) h
  have hdigit : ∀ d < 10, '-' ≠ d.digitChar := by decide
  exact hdigit d hd hminus

theorem int_eq_of_repr {a b : Int} (h : a.repr = b.repr) : a = b := by
  have hsign (m n : Nat) : m.repr ≠ "-" ++ n.repr := fun h =>
    minus_not_mem_repr m (by rw [h, String.toList_append]; exact List.mem_append_left _ (.head _))
  rw [Int.repr_eq_if, Int.repr_eq_if] at h
  split at h <;> split at h
  case isTrue.isTrue =>
    have := nat_eq_of_repr h
    omega
  case isTrue.isFalse => exact absurd h (hsign _ _)
  case isFalse.isTrue => exact absurd h.symm (hsign _ _)
  case isFalse.isFalse =>
    have := nat_eq_of_repr (String.append_right_inj _ |>.mp h)
    omega

/-- The text of a number begins with a character of a number and has no other ones. -/
def IsNumeral (text : String) : Prop := text.toList ≠ [] ∧ ∀ c ∈ text.toList, c ∈ numeralCharacters

theorem isNumeral_nat (n : Nat) : IsNumeral (toString n) :=
  ⟨repr_ne_nil n, fun _ h => mem_numeral_of_repr h⟩

theorem isNumeral_int (n : Int) : IsNumeral (toString n) := by
  show IsNumeral n.repr
  rw [Int.repr_eq_if]
  split
  · exact isNumeral_nat n.toNat
  · refine ⟨by simp, fun c h => ?_⟩
    rw [String.toList_append] at h
    rcases List.mem_append.mp h with hsign | hdigits
    · have hminus : c = '-' := by simpa using hsign
      rw [hminus]
      decide
    · exact mem_numeral_of_repr hdigits

theorem isNumeral_hex (n : Nat) : IsNumeral ("0x" ++ hex n) := by
  refine ⟨by simp, fun c h => ?_⟩
  rw [String.toList_append] at h
  rcases List.mem_append.mp h with hfront | hdigits
  · have hmarks : c = '0' ∨ c = 'x' := by simpa using hfront
    rcases hmarks with rfl | rfl <;> decide
  · rw [hex, String.toList_ofList] at hdigits
    exact mem_numeral_of_digit (by omega) (by omega) hdigits

theorem isNumeral_integerText (base : NumericBase) (raw : UInt64) (value : Int64) (isSigned : Bool) :
    IsNumeral (integerText base raw value isSigned) := by
  cases base with
  | hexadecimal => exact isNumeral_hex raw.toNat
  | decimal =>
    cases isSigned with
    | true => exact isNumeral_int value.toInt
    | false => exact isNumeral_nat raw.toNat

end FirmwareDebug
