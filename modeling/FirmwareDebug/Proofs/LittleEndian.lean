import FirmwareDebug.Bytes
import Mathlib.Data.Nat.ModEq

/-!
# Little-endian numbers

Leaving out the first bytes of a number divides it, and cutting it off behind them takes the remainder. So any
window in some bytes is a quotient and a remainder of the number that all of them write. A word and its four bytes
stand for each other.
-/

namespace FirmwareDebug

theorem pow_bytes (count : Nat) : 256 ^ count = 2 ^ (8 * count) := Nat.pow_mul 2 8 count ▸ rfl

theorem littleEndian_lt (bytes : List UInt8) : littleEndian bytes < 256 ^ bytes.length := by
  induction bytes with
  | nil => exact Nat.one_pos
  | cons b rest ih =>
    have hb := b.toNat_lt
    rw [littleEndian, List.length_cons, Nat.pow_succ]
    omega

@[simp]
theorem littleEndian_cons_div (b : UInt8) (rest : List UInt8) :
    littleEndian (b :: rest) / 256 = littleEndian rest := by
  have hb := b.toNat_lt
  rw [littleEndian]
  omega

@[simp]
theorem littleEndian_cons_mod (b : UInt8) (rest : List UInt8) : littleEndian (b :: rest) % 256 = b.toNat := by
  have hb := b.toNat_lt
  rw [littleEndian]
  omega

theorem littleEndian_drop (count : Nat) (bytes : List UInt8) :
    littleEndian (bytes.drop count) = littleEndian bytes / 256 ^ count := by
  induction count generalizing bytes with
  | zero => simp
  | succ count ih =>
    cases bytes with
    | nil => simp [littleEndian]
    | cons b rest =>
      rw [List.drop_succ_cons, ih, Nat.pow_succ', ← Nat.div_div_eq_div_mul, littleEndian_cons_div]

theorem littleEndian_take (count : Nat) (bytes : List UInt8) :
    littleEndian (bytes.take count) = littleEndian bytes % 256 ^ count := by
  induction count generalizing bytes with
  | zero => simp [littleEndian, Nat.mod_one]
  | succ count ih =>
    cases bytes with
    | nil => simp [littleEndian]
    | cons b rest =>
      rw [List.take_succ_cons, littleEndian, ih, Nat.pow_succ', Nat.mod_mul, littleEndian_cons_mod,
        littleEndian_cons_div]

theorem littleEndian_littleEndianBytes_mod (count n : Nat) :
    littleEndian (littleEndianBytes count n) = n % 256 ^ count := by
  induction count generalizing n with
  | zero => simp [littleEndianBytes, littleEndian, Nat.mod_one]
  | succ count ih =>
    have hbyte : (UInt8.ofNat (n % 256)).toNat = n % 256 := UInt8.toNat_ofNat_of_lt' (Nat.mod_lt _ (by omega))
    rw [littleEndianBytes, littleEndian, hbyte, ih, Nat.pow_succ', Nat.mod_mul]

theorem littleEndian_littleEndianBytes {count n : Nat} (h : n < 256 ^ count) :
    littleEndian (littleEndianBytes count n) = n := by
  rw [littleEndian_littleEndianBytes_mod, Nat.mod_eq_of_lt h]

@[simp]
theorem littleEndianBytes_littleEndian (bytes : List UInt8) :
    littleEndianBytes bytes.length (littleEndian bytes) = bytes := by
  induction bytes with
  | nil => rfl
  | cons b rest ih =>
    rw [List.length_cons, littleEndianBytes, littleEndian_cons_mod, littleEndian_cons_div, UInt8.ofNat_toNat, ih]

/-! ## Words -/

@[simp]
theorem length_wordBytes (word : UInt32) : (wordBytes word).length = 4 := length_littleEndianBytes 4 _

@[simp]
theorem wordOfBytes_wordBytes (word : UInt32) : wordOfBytes (wordBytes word) = word := by
  rw [wordOfBytes, List.take_of_length_le (length_wordBytes word).le, wordBytes,
    littleEndian_littleEndianBytes word.toNat_lt, UInt32.ofNat_toNat]

@[simp]
theorem wordBytes_wordOfBytes (a b c d : UInt8) : wordBytes (wordOfBytes [a, b, c, d]) = [a, b, c, d] := by
  have hfits : littleEndian [a, b, c, d] < 256 ^ 4 := littleEndian_lt [a, b, c, d]
  rw [wordBytes, wordOfBytes, List.take_of_length_le (by simp), UInt32.toNat_ofNat_of_lt' hfits]
  exact littleEndianBytes_littleEndian [a, b, c, d]

end FirmwareDebug
