import FirmwareDebug.Leb128
import Mathlib.Tactic.Linarith
import Mathlib.Tactic.Ring

/-!
# What groups of seven bits write

The number that groups write is told without a width: each group counts 128 times less than those
behind it, and in a signed number the last group counts from -64 to 63. Reading gives that number as
far as 64 bits hold it.
-/

namespace FirmwareDebug.Leb128

/-! ## Groups and numbers -/

/-- The bytes write a natural number. -/
inductive UnsignedGroups : List UInt8 → Nat → Prop
  | last {b : UInt8} (h : b.toNat < 128) : UnsignedGroups [b] b.toNat
  | more {b : UInt8} {rest : List UInt8} {n : Nat} (h : 128 ≤ b.toNat) (hrest : UnsignedGroups rest n) :
      UnsignedGroups (b :: rest) (b.toNat - 128 + 128 * n)

/-- The bytes write an integer. -/
inductive SignedGroups : List UInt8 → Int → Prop
  | positive {b : UInt8} (h : b.toNat < 64) : SignedGroups [b] b.toNat
  | negative {b : UInt8} (h : 64 ≤ b.toNat) (hlast : b.toNat < 128) : SignedGroups [b] (b.toNat - 128)
  | more {b : UInt8} {rest : List UInt8} {n : Int} (h : 128 ≤ b.toNat) (hrest : SignedGroups rest n) :
      SignedGroups (b :: rest) (b.toNat - 128 + 128 * n)

theorem UnsignedGroups.length_pos {bytes : List UInt8} {n : Nat} (h : UnsignedGroups bytes n) :
    0 < bytes.length := by
  cases h <;> simp

theorem SignedGroups.length_pos {bytes : List UInt8} {n : Int} (h : SignedGroups bytes n) :
    0 < bytes.length := by
  cases h <;> simp

theorem UnsignedGroups.unique {bytes : List UInt8} {m n : Nat} (hm : UnsignedGroups bytes m)
    (hn : UnsignedGroups bytes n) : m = n := by
  induction hm generalizing n with
  | last h =>
    cases hn with
    | last => rfl
    | more _ hrest => cases hrest
  | more h hrest ih =>
    cases hn with
    | last => cases hrest
    | more _ hrest' => rw [ih hrest']

theorem UnsignedGroups.lt {bytes : List UInt8} {n : Nat} (h : UnsignedGroups bytes n) : n < 128 ^ bytes.length := by
  induction h with
  | last h => simpa using h
  | @more b rest n h hrest ih =>
    have hbyte := b.toNat_lt
    rw [List.length_cons, pow_succ]
    omega

/-! ## One group -/

@[simp]
theorem toNat_payload (b : UInt8) : (payload b).toNat = b.toNat % 128 := by
  have := Nat.and_two_pow_sub_one_eq_mod b.toNat 7
  simpa [payload] using this

theorem continues_iff (b : UInt8) : continues b = true ↔ 128 ≤ b.toNat := by
  have hall : ∀ n : Fin 256, continues (UInt8.ofFin n) = true ↔ 128 ≤ n.val := by decide +kernel
  simpa using hall b.toFin

theorem sign_iff {b : UInt8} (h : b.toNat < 128) : b &&& 0x40 ≠ 0 ↔ 64 ≤ b.toNat := by
  have hall : ∀ n : Fin 256, n.val < 128 → (UInt8.ofFin n &&& 0x40 ≠ 0 ↔ 64 ≤ n.val) := by decide +kernel
  simpa using hall b.toFin h

theorem toNat_continuing {b : UInt8} (h : b.toNat < 128) : (b + 128).toNat = b.toNat + 128 := by
  have hmark : (128 : UInt8).toNat = 128 := rfl
  rw [UInt8.toNat_add]
  omega

theorem and_eq_zero_iff (b : UInt8) : b &&& 0x7e = 0 ↔ b.toNat % 128 < 2 := by
  have hall : ∀ n : Fin 256, UInt8.ofFin n &&& 0x7e = 0 ↔ n.val % 128 < 2 := by decide +kernel
  simpa using hall b.toFin

theorem or_shifted {low shift width : Nat} (hshift : shift ≤ width) (hlow : low < 2 ^ shift) (high : Nat) :
    low ||| high * 2 ^ shift % 2 ^ width = low + high * 2 ^ shift % 2 ^ width := by
  have hmod : high * 2 ^ shift % 2 ^ width = (high % 2 ^ (width - shift)) <<< shift := by
    rw [← Nat.sub_add_cancel hshift, Nat.pow_add, Nat.mul_mod_mul_right, Nat.shiftLeft_eq, Nat.add_sub_cancel]
  rw [hmod, Nat.or_comm, ← Nat.shiftLeft_add_eq_or_of_lt hlow, Nat.add_comm]

section

variable {value : UInt64} {shift : Nat}

theorem toNat_shift (h : shift < 64) : (UInt64.ofNat shift).toNat % 64 = shift := by
  rw [UInt64.toNat_ofNat_of_lt' (by simp only [UInt64.size]; omega), Nat.mod_eq_of_lt h]

theorem two_pow_split (h : shift ≤ 64) : 2 ^ 64 = 2 ^ (64 - shift) * 2 ^ shift := by
  rw [← Nat.pow_add, Nat.sub_add_cancel h]

theorem toNat_or_payload (hshift : shift < 64) (hvalue : value.toNat < 2 ^ shift) (b : UInt8) :
    (value ||| payload b <<< UInt64.ofNat shift).toNat =
      value.toNat + b.toNat % 128 * 2 ^ shift % 2 ^ 64 := by
  rw [UInt64.toNat_or, UInt64.toNat_shiftLeft, toNat_shift hshift, toNat_payload, Nat.shiftLeft_eq,
    or_shifted (Nat.le_of_lt hshift) hvalue]

theorem toNat_or_payload_of_room (hroom : shift + 7 ≤ 64) (hvalue : value.toNat < 2 ^ shift) (b : UInt8) :
    (value ||| payload b <<< UInt64.ofNat shift).toNat = value.toNat + b.toNat % 128 * 2 ^ shift ∧
      value.toNat + b.toNat % 128 * 2 ^ shift < 2 ^ (shift + 7) := by
  have hpower : 2 ^ (shift + 7) = 128 * 2 ^ shift := by rw [Nat.pow_add, Nat.mul_comm]
  have hgroup : b.toNat % 128 * 2 ^ shift ≤ 127 * 2 ^ shift := Nat.mul_le_mul_right _ (by omega)
  have hwide : 2 ^ (shift + 7) ≤ 2 ^ 64 := Nat.pow_le_pow_right (by omega) hroom
  have hnumber := toNat_or_payload (by omega) hvalue b
  rw [Nat.mod_eq_of_lt (by omega)] at hnumber
  exact ⟨hnumber, by omega⟩

theorem toNat_or_ones (hshift : shift < 64) (hvalue : value.toNat < 2 ^ shift) :
    (value ||| (-1 : UInt64) <<< UInt64.ofNat shift).toNat + 2 ^ shift = value.toNat + 2 ^ 64 := by
  have hsplit := two_pow_split (Nat.le_of_lt hshift)
  have hones : (2 ^ 64 - 1) % 2 ^ (64 - shift) = 2 ^ (64 - shift) - 1 := by
    have hlow : 1 ≤ 2 ^ shift := Nat.one_le_two_pow
    have hhigh : 1 ≤ 2 ^ (64 - shift) := Nat.one_le_two_pow
    have hsum : 2 ^ 64 - 1 = 2 ^ (64 - shift) * (2 ^ shift - 1) + (2 ^ (64 - shift) - 1) := by
      rw [hsplit, Nat.mul_sub, Nat.mul_one]
      have := Nat.le_mul_of_pos_right (2 ^ (64 - shift)) hlow
      omega
    rw [hsum, Nat.mul_add_mod, Nat.mod_eq_of_lt (by omega)]
  have hmod : (2 ^ 64 - 1) * 2 ^ shift % 2 ^ 64 = (2 ^ (64 - shift) - 1) <<< shift := by
    conv_lhs => rw [hsplit, Nat.mul_mod_mul_right, ← hsplit, hones]
    rw [Nat.shiftLeft_eq]
  have hall : (-1 : UInt64).toNat = 2 ^ 64 - 1 := by decide
  have hroom : 2 ^ shift ≤ 2 ^ 64 := Nat.pow_le_pow_right (by omega) (by omega)
  rw [UInt64.toNat_or, UInt64.toNat_shiftLeft, toNat_shift hshift, hall, Nat.shiftLeft_eq, hmod,
    Nat.or_comm, ← Nat.shiftLeft_add_eq_or_of_lt hvalue, Nat.shiftLeft_eq, Nat.sub_mul, ← hsplit]
  omega

end

theorem toInt64_eq_ofInt {u : UInt64} {k : Int} (h : k % 2 ^ 64 = u.toNat) : u.toInt64 = Int64.ofInt k := by
  have hbits : BitVec.ofInt 64 k = u.toBitVec := by
    apply BitVec.eq_of_toNat_eq
    rw [BitVec.toNat_ofInt]
    norm_num at h ⊢
    rw [h]
    rfl
  rw [Int64.ofInt, hbits]
  rfl

/-! ## More groups than needed -/

theorem unsignedGroups_zeros (count : Nat) : UnsignedGroups (List.replicate count 0x80 ++ [0]) 0 := by
  induction count with
  | zero => exact .last (by decide)
  | succ count ih => exact .more (by decide) ih

theorem UnsignedGroups.padded {front : List UInt8} {b : UInt8} {n : Nat} (h : UnsignedGroups (front ++ [b]) n)
    (count : Nat) : UnsignedGroups (front ++ (b + 128) :: (List.replicate count 0x80 ++ [0])) n := by
  induction front generalizing n with
  | nil =>
    cases h with
    | last hb =>
      have hbyte := toNat_continuing hb
      have hgroups := UnsignedGroups.more (b := b + 128) (by omega) (unsignedGroups_zeros count)
      rwa [hbyte, Nat.add_sub_cancel] at hgroups
    | more _ hrest => cases hrest
  | cons x front ih =>
    rw [List.cons_append] at h
    generalize hrest : front ++ [b] = rest at h
    cases h with
    | more hx hgroups => exact .more hx (ih (hrest ▸ hgroups))
    | last => exact absurd (List.append_eq_nil_iff.mp hrest).2 (List.cons_ne_nil _ _)

theorem signedGroups_zeros (count : Nat) : SignedGroups (List.replicate count 0x80 ++ [0]) 0 := by
  induction count with
  | zero => exact .positive (by decide)
  | succ count ih => exact .more (by decide) ih

theorem signedGroups_ones (count : Nat) : SignedGroups (List.replicate count 0xff ++ [0x7f]) (-1) := by
  induction count with
  | zero => exact .negative (by decide) (by decide)
  | succ count ih =>
    have hgroups := SignedGroups.more (b := 0xff) (by decide) ih
    rwa [show (((0xff : UInt8).toNat : Int) - 128 + 128 * -1) = -1 by decide] at hgroups

theorem SignedGroups.padded {front : List UInt8} {b : UInt8} {n : Int} (h : SignedGroups (front ++ [b]) n)
    (count : Nat) : SignedGroups (front ++ (b + 128) ::
      if b.toNat < 64 then List.replicate count 0x80 ++ [0] else List.replicate count 0xff ++ [0x7f]) n := by
  induction front generalizing n with
  | nil =>
    cases h with
    | positive hb =>
      have hbyte := toNat_continuing (b := b) (by omega)
      have hgroups := SignedGroups.more (b := b + 128) (by omega) (signedGroups_zeros count)
      rw [if_pos hb]
      rwa [hbyte, show ((b.toNat + 128 : Nat) : Int) - 128 + 128 * 0 = b.toNat by omega] at hgroups
    | negative hb hlast =>
      have hbyte := toNat_continuing hlast
      have hgroups := SignedGroups.more (b := b + 128) (by omega) (signedGroups_ones count)
      rw [if_neg (Nat.not_lt.mpr hb)]
      rwa [hbyte, show ((b.toNat + 128 : Nat) : Int) - 128 + 128 * -1 = b.toNat - 128 by omega] at hgroups
    | more _ hrest => cases hrest
  | cons x front ih =>
    rw [List.cons_append] at h
    generalize hrest : front ++ [b] = rest at h
    cases h with
    | more hx hgroups => exact .more hx (ih (hrest ▸ hgroups))
    | _ => exact absurd (List.append_eq_nil_iff.mp hrest).2 (List.cons_ne_nil _ _)

/-! ## Reading groups -/

theorem unsignedFrom_groups {bytes : List UInt8} {n : Nat} (h : UnsignedGroups bytes n) {shift used : Nat}
    {value : UInt64} (hshift : shift + 7 * (bytes.length - 1) < 64) (hvalue : value.toNat < 2 ^ shift)
    (hfits : value.toNat + n * 2 ^ shift < 2 ^ 64) (behind : List UInt8) :
    unsignedFrom shift used value (bytes ++ behind) =
      .number (UInt64.ofNat (value.toNat + n * 2 ^ shift)) (used + bytes.length) := by
  induction h generalizing shift used value with
  | @last b hb =>
    have hplace : shift < 64 := by simpa using hshift
    have hnarrow : ¬ (64 ≤ shift ∨ shift = 63 ∧ b &&& 0x7e ≠ 0) := by
      rintro (hwide | ⟨rfl, hbits⟩)
      · omega
      · exact hbits ((and_eq_zero_iff b).mpr (by omega))
    have hlast : ¬ continues b = true := by
      rw [continues_iff]
      omega
    have hnumber := toNat_or_payload hplace hvalue b
    rw [Nat.mod_eq_of_lt hb, Nat.mod_eq_of_lt (by omega)] at hnumber
    simp only [List.singleton_append, unsignedFrom, if_neg hnarrow, if_neg hlast, List.length_singleton,
      ← hnumber, UInt64.ofNat_toNat]
  | @more b rest n hb hrest ih =>
    have hlength := hrest.length_pos
    simp only [List.length_cons, Nat.add_sub_cancel] at hshift
    have hnarrow : ¬ (64 ≤ shift ∨ shift = 63 ∧ b &&& 0x7e ≠ 0) := by omega
    have hbyte := b.toNat_lt
    obtain ⟨hnumber, hfree⟩ := toNat_or_payload_of_room (by omega) hvalue b
    have hweight : (b.toNat - 128 + 128 * n) * 2 ^ shift =
        b.toNat % 128 * 2 ^ shift + n * 2 ^ (shift + 7) := by
      rw [show b.toNat % 128 = b.toNat - 128 by omega]
      ring
    rw [hweight, ← Nat.add_assoc, ← hnumber] at hfits ⊢
    have hread : unsignedFrom (shift + 7) (used + 1) (value ||| payload b <<< UInt64.ofNat shift)
        (rest ++ behind) = _ :=
      ih (by omega) (by rwa [hnumber]) hfits
    simp only [List.cons_append, unsignedFrom, if_neg hnarrow, if_pos ((continues_iff b).mpr hb), hread,
      List.length_cons]
    congr 1
    omega

theorem mod_add_payload {value : UInt64} {shift : Nat} (hshift : shift < 64) (hvalue : value.toNat < 2 ^ shift)
    (b : UInt8) : (value.toNat + b.toNat % 128 * 2 ^ shift : Int) % 2 ^ 64 =
      (value ||| payload b <<< UInt64.ofNat shift).toNat := by
  have hnumber := toNat_or_payload hshift hvalue b
  have hlt := (value ||| payload b <<< UInt64.ofNat shift).toNat_lt
  have hmod : (value.toNat + b.toNat % 128 * 2 ^ shift) % 2 ^ 64 =
      (value ||| payload b <<< UInt64.ofNat shift).toNat := by
    rw [← Nat.add_mod_mod, ← hnumber, Nat.mod_eq_of_lt hlt]
  rw [← hmod]
  push_cast
  rfl

theorem signedFrom_groups {bytes : List UInt8} {n : Int} (h : SignedGroups bytes n) {shift used : Nat}
    {value : UInt64} (hshift : shift + 7 * (bytes.length - 1) < 64) (hvalue : value.toNat < 2 ^ shift)
    (behind : List UInt8) : signedFrom shift used value (bytes ++ behind) =
      .number (Int64.ofInt (value.toNat + n * 2 ^ shift)) (used + bytes.length) := by
  induction h generalizing shift used value with
  | @positive b hb =>
    have hplace : shift < 64 := by simpa using hshift
    have hlast : ¬ continues b = true := by
      rw [continues_iff]
      omega
    have hsign : ¬ (shift + 7 < 64 ∧ b &&& 0x40 ≠ 0) := by
      rw [sign_iff (by omega)]
      omega
    have hnumber := mod_add_payload hplace hvalue b
    rw [show (b.toNat : Int) % 128 = b.toNat by omega] at hnumber
    simp only [List.singleton_append, signedFrom, if_neg (Nat.not_le.mpr hplace), if_neg hlast, if_neg hsign,
      toInt64_eq_ofInt hnumber, List.length_singleton]
  | @negative b hb hlow =>
    have hplace : shift < 64 := by simpa using hshift
    have hlast : ¬ continues b = true := by
      rw [continues_iff]
      omega
    have hweight : (value.toNat + (b.toNat - 128) * 2 ^ shift : Int) =
        value.toNat + b.toNat % 128 * 2 ^ shift - 2 ^ (shift + 7) := by
      rw [show (b.toNat : Int) % 128 = b.toNat by omega]
      ring
    -- Where bits are left above the group they are filled with ones, else the weight wraps by itself.
    by_cases hroom : shift + 7 < 64
    · have hsign : shift + 7 < 64 ∧ b &&& 0x40 ≠ 0 := ⟨hroom, (sign_iff hlow).mpr hb⟩
      obtain ⟨hnumber, hfree⟩ := toNat_or_payload_of_room (Nat.le_of_lt hroom) hvalue b
      rw [← hnumber] at hfree
      have hones := toNat_or_ones hroom hfree
      have hlt := (value ||| payload b <<< UInt64.ofNat shift ||| (-1 : UInt64) <<< UInt64.ofNat (shift + 7)).toNat_lt
      have hresult : (value.toNat + (b.toNat - 128) * 2 ^ shift : Int) % 2 ^ 64 =
          (value ||| payload b <<< UInt64.ofNat shift ||| (-1 : UInt64) <<< UInt64.ofNat (shift + 7)).toNat := by
        zify at hnumber hones
        rw [hweight, ← hnumber]
        omega
      simp only [List.singleton_append, signedFrom, if_neg (Nat.not_le.mpr hplace), if_neg hlast, if_pos hsign,
        toInt64_eq_ofInt hresult, List.length_singleton]
    · have hsign : ¬ (shift + 7 < 64 ∧ b &&& 0x40 ≠ 0) := fun h => hroom h.1
      have hresult : (value.toNat + (b.toNat - 128) * 2 ^ shift : Int) % 2 ^ 64 =
          (value ||| payload b <<< UInt64.ofNat shift).toNat := by
        obtain ⟨k, hk⟩ : (2 : Int) ^ 64 ∣ 2 ^ (shift + 7) := pow_dvd_pow 2 (by omega)
        rw [hweight, hk, Int.sub_mul_emod_self_left, mod_add_payload hplace hvalue b]
      simp only [List.singleton_append, signedFrom, if_neg (Nat.not_le.mpr hplace), if_neg hlast, if_neg hsign,
        toInt64_eq_ofInt hresult, List.length_singleton]
  | @more b rest n hb hrest ih =>
    have hlength := hrest.length_pos
    simp only [List.length_cons, Nat.add_sub_cancel] at hshift
    have hbyte := b.toNat_lt
    obtain ⟨hnumber, hfree⟩ := toNat_or_payload_of_room (by omega) hvalue b
    have hread : signedFrom (shift + 7) (used + 1) (value ||| payload b <<< UInt64.ofNat shift)
        (rest ++ behind) = _ :=
      ih (by omega) (by rwa [hnumber])
    have hweight : ((value ||| payload b <<< UInt64.ofNat shift).toNat + n * 2 ^ (shift + 7) : Int) =
        value.toNat + (b.toNat - 128 + 128 * n) * 2 ^ shift := by
      rw [hnumber, show b.toNat % 128 = b.toNat - 128 by omega]
      push_cast [hb]
      ring
    rw [hweight] at hread
    simp only [List.cons_append, signedFrom, if_neg (show ¬ 64 ≤ shift by omega),
      if_pos ((continues_iff b).mpr hb), hread, List.length_cons]
    congr 1
    omega

/-! ## What was read -/

theorem groups_of_unsignedFrom {bytes : List UInt8} {shift used : Nat} {value result : UInt64}
    (hplace : 7 ∣ shift) (hvalue : value.toNat < 2 ^ shift)
    (h : unsignedFrom shift used value bytes = .number result (used + bytes.length)) :
    ∃ n, UnsignedGroups bytes n ∧ shift + 7 * (bytes.length - 1) < 64 ∧
      result.toNat = value.toNat + n * 2 ^ shift := by
  induction bytes generalizing shift used value with
  | nil => cases h
  | cons b rest ih =>
    simp only [unsignedFrom] at h
    split at h
    case isTrue => cases h
    case isFalse hnarrow =>
      obtain ⟨hwide, hbits⟩ := not_or.mp hnarrow
      -- Only the place 63 leaves less than a group, and one bit is all that the group may have there.
      have hroom : shift + 7 ≤ 64 ∨ shift = 63 ∧ b.toNat % 128 < 2 := by
        by_cases hlast : shift = 63
        · exact .inr ⟨hlast, (and_eq_zero_iff b).mp (by simpa [hlast] using hbits)⟩
        · omega
      have hnumber : (value ||| payload b <<< UInt64.ofNat shift).toNat =
          value.toNat + b.toNat % 128 * 2 ^ shift := by
        rcases hroom with hroom | ⟨rfl, hbit⟩
        · exact (toNat_or_payload_of_room hroom hvalue b).1
        · rw [toNat_or_payload (by omega) hvalue, Nat.mod_eq_of_lt (by omega)]
      split at h
      case isTrue hcontinues =>
        have hb := (continues_iff b).mp hcontinues
        have hbyte := b.toNat_lt
        rw [List.length_cons, show used + (rest.length + 1) = used + 1 + rest.length by omega] at h
        have hfree : (value ||| payload b <<< UInt64.ofNat shift).toNat < 2 ^ (shift + 7) := by
          have hpower : 2 ^ (shift + 7) = 128 * 2 ^ shift := by rw [Nat.pow_add, Nat.mul_comm]
          have hgroup : b.toNat % 128 * 2 ^ shift ≤ 127 * 2 ^ shift := Nat.mul_le_mul_right _ (by omega)
          omega
        obtain ⟨n, hgroups, hlength, hresult⟩ := ih (by omega) hfree h
        have hpos := hgroups.length_pos
        refine ⟨_, .more hb hgroups, by simp only [List.length_cons]; omega, ?_⟩
        rw [hresult, hnumber, show b.toNat % 128 = b.toNat - 128 by omega]
        ring
      case isFalse hlast =>
        have hb : b.toNat < 128 := Nat.not_le.mp fun hb => hlast ((continues_iff b).mpr hb)
        rw [Ending.number.injEq, List.length_cons] at h
        obtain ⟨rfl, hend⟩ := h
        obtain rfl : rest = [] := List.eq_nil_of_length_eq_zero (by omega)
        refine ⟨_, .last hb, by simpa using hwide, ?_⟩
        rw [hnumber, Nat.mod_eq_of_lt hb]

theorem groups_of_signedFrom {bytes : List UInt8} {shift used : Nat} {value : UInt64} {result : Int64}
    (h : signedFrom shift used value bytes = .number result (used + bytes.length)) :
    ∃ n, SignedGroups bytes n ∧ shift + 7 * (bytes.length - 1) < 64 := by
  induction bytes generalizing shift used value with
  | nil => cases h
  | cons b rest ih =>
    simp only [signedFrom] at h
    split at h
    case isTrue => cases h
    case isFalse hwide =>
      split at h
      case isTrue hcontinues =>
        rw [List.length_cons, show used + (rest.length + 1) = used + 1 + rest.length by omega] at h
        obtain ⟨n, hgroups, hlength⟩ := ih h
        have hpos := hgroups.length_pos
        exact ⟨_, .more ((continues_iff b).mp hcontinues) hgroups, by simp only [List.length_cons]; omega⟩
      case isFalse hlast =>
        have hb : b.toNat < 128 := Nat.not_le.mp fun hb => hlast ((continues_iff b).mpr hb)
        have hend : rest = [] := by
          split at h
          all_goals
            rw [Ending.number.injEq, List.length_cons] at h
            exact List.eq_nil_of_length_eq_zero (by omega)
        subst hend
        have hlength : shift + 7 * ([b].length - 1) < 64 := by simpa using hwide
        rcases Nat.lt_or_ge b.toNat 64 with hsign | hsign
        · exact ⟨_, .positive hsign, hlength⟩
        · exact ⟨_, .negative hsign hb, hlength⟩

theorem signedFrom_tooWide {front : List UInt8} (hfront : ∀ x ∈ front, 128 ≤ x.toNat) (b : UInt8)
    (behind : List UInt8) {shift : Nat} (hshift : 64 ≤ shift + 7 * front.length) (used : Nat) (value : UInt64) :
    ∃ last, signedFrom shift used value (front ++ b :: behind) = .tooWide last := by
  induction front generalizing shift used value with
  | nil => exact ⟨used + 1, if_pos (by simpa using hshift)⟩
  | cons x front ih =>
    obtain ⟨hx, hrest⟩ := List.forall_mem_cons.mp hfront
    rw [List.length_cons] at hshift
    simp only [List.cons_append, signedFrom, if_pos ((continues_iff x).mpr hx)]
    split
    · exact ⟨used + 1, rfl⟩
    · exact ih hrest (by omega) _ _

/-! ## The last group -/

/-- What the last group of a signed number counts, before its place is taken into account. -/
def lastCount (b : UInt8) : Int := if b.toNat < 64 then b.toNat else b.toNat - 128

theorem SignedGroups.continuing {front back : List UInt8} {n : Int} (h : SignedGroups (front ++ back) n)
    (hback : back ≠ []) : ∀ x ∈ front, 128 ≤ x.toNat := by
  induction front generalizing n with
  | nil => exact List.forall_mem_nil _
  | cons x front ih =>
    rw [List.cons_append] at h
    generalize hrest : front ++ back = rest at h
    cases h with
    | more hx hgroups => exact List.forall_mem_cons.mpr ⟨hx, ih (hrest ▸ hgroups)⟩
    | _ => exact absurd (List.append_eq_nil_iff.mp hrest).2 hback

theorem exists_signedGroups {front : List UInt8} (hfront : ∀ x ∈ front, 128 ≤ x.toNat) {b : UInt8}
    (hb : b.toNat < 128) : ∃ n, SignedGroups (front ++ [b]) n := by
  induction front with
  | nil =>
    rcases Nat.lt_or_ge b.toNat 64 with hsign | hsign
    · exact ⟨_, .positive hsign⟩
    · exact ⟨_, .negative hsign hb⟩
  | cons x front ih =>
    obtain ⟨hx, hrest⟩ := List.forall_mem_cons.mp hfront
    obtain ⟨n, hgroups⟩ := ih hrest
    exact ⟨_, .more hx hgroups⟩

theorem SignedGroups.split {front : List UInt8} {b : UInt8} {n : Int} (h : SignedGroups (front ++ [b]) n) :
    b.toNat < 128 ∧ 128 ^ front.length * lastCount b ≤ n ∧ n < 128 ^ front.length * (lastCount b + 1) := by
  induction front generalizing n with
  | nil =>
    cases h with
    | positive hb => exact ⟨by omega, by simp [lastCount, hb]⟩
    | negative hb hlast => simp [lastCount, Nat.not_lt.mpr hb, hlast]
    | more _ hrest => cases hrest
  | cons x front ih =>
    rw [List.cons_append] at h
    generalize hrest : front ++ [b] = rest at h
    cases h with
    | more hx hgroups =>
      obtain ⟨hb, hlow, hhigh⟩ := ih (hrest ▸ hgroups)
      have hbyte := x.toNat_lt
      simp only [List.length_cons, pow_succ', mul_assoc]
      exact ⟨hb, by omega, by omega⟩
    | _ => exact absurd (List.append_eq_nil_iff.mp hrest).2 (List.cons_ne_nil _ _)

/-- Whether 64 bits hold an integer. -/
def FitsLong (n : Int) : Prop := -2 ^ 63 ≤ n ∧ n < 2 ^ 63

theorem SignedGroups.fitsLong_of_short {bytes : List UInt8} {n : Int} (h : SignedGroups bytes n)
    (hlength : bytes.length ≤ 9) : FitsLong n := by
  rcases List.eq_nil_or_concat bytes with rfl | ⟨front, b, rfl⟩
  · cases h
  · rw [List.concat_eq_append] at h hlength
    obtain ⟨hb, hlow, hhigh⟩ := h.split
    rw [List.length_append, List.length_singleton] at hlength
    have hpower : (128 : Int) ^ front.length ≤ 128 ^ 8 := pow_le_pow_right₀ (by norm_num) (by omega)
    have hpos : (0 : Int) < 128 ^ front.length := by positivity
    have hcount : -64 ≤ lastCount b ∧ lastCount b ≤ 63 := by
      unfold lastCount
      split <;> omega
    constructor
    · nlinarith
    · nlinarith

/-- Of the tenth group 64 bits hold the lowest bit only, so it must repeat the sign. -/
theorem SignedGroups.fitsLong_iff {front : List UInt8} {b : UInt8} {n : Int} (h : SignedGroups (front ++ [b]) n)
    (hlength : front.length = 9) : FitsLong n ↔ b = 0 ∨ b = 0x7f := by
  obtain ⟨hb, hlow, hhigh⟩ := h.split
  have hcount : (lastCount b = 0 ↔ b = 0) ∧ (lastCount b = -1 ↔ b = 0x7f) := by
    rw [← UInt8.toNat_inj, ← UInt8.toNat_inj]
    unfold lastCount
    split <;> simp <;> omega
  rw [← hcount.1, ← hcount.2, FitsLong]
  rw [hlength] at hlow hhigh
  omega

/-! ## Writing groups -/

/-- The shortest groups of a natural number. -/
def writeUnsigned (n : Nat) : List UInt8 :=
  if n < 128 then [UInt8.ofNat n] else UInt8.ofNat (n % 128 + 128) :: writeUnsigned (n / 128)
termination_by n

/-- The shortest groups of an integer. -/
def writeSigned (n : Int) : List UInt8 :=
  if -64 ≤ n ∧ n < 64 then [UInt8.ofNat (n % 128).toNat]
  else UInt8.ofNat ((n % 128).toNat + 128) :: writeSigned (n / 128)
termination_by n.natAbs

theorem groups_writeUnsigned (n : Nat) : UnsignedGroups (writeUnsigned n) n := by
  induction n using writeUnsigned.induct with
  | case1 n h =>
    have hbyte : (UInt8.ofNat n).toNat = n := UInt8.toNat_ofNat_of_lt' (by simp only [UInt8.size]; omega)
    rw [writeUnsigned, if_pos h]
    simpa [hbyte] using UnsignedGroups.last (b := UInt8.ofNat n) (by omega)
  | case2 n h ih =>
    have hbyte : (UInt8.ofNat (n % 128 + 128)).toNat = n % 128 + 128 :=
      UInt8.toNat_ofNat_of_lt' (by simp only [UInt8.size]; omega)
    rw [writeUnsigned, if_neg h]
    have hgroups := UnsignedGroups.more (b := UInt8.ofNat (n % 128 + 128)) (by omega) ih
    rwa [hbyte, show n % 128 + 128 - 128 + 128 * (n / 128) = n by omega] at hgroups

theorem length_writeUnsigned {n count : Nat} (h : n < 128 ^ count) (hcount : 0 < count) :
    (writeUnsigned n).length ≤ count := by
  induction count generalizing n with
  | zero => cases hcount
  | succ count ih =>
    rw [writeUnsigned]
    split
    · simp
    · have hcount : 0 < count := by
        by_contra hzero
        rw [show count = 0 by omega] at h
        omega
      have hrest : n / 128 < 128 ^ count := by
        rw [Nat.div_lt_iff_lt_mul (by omega), ← Nat.pow_succ]
        exact h
      simpa using ih hrest hcount

theorem groups_writeSigned (n : Int) : SignedGroups (writeSigned n) n := by
  induction n using writeSigned.induct with
  | case1 n h =>
    have hbyte : (UInt8.ofNat (n % 128).toNat).toNat = (n % 128).toNat :=
      UInt8.toNat_ofNat_of_lt' (by simp only [UInt8.size]; omega)
    rw [writeSigned, if_pos h]
    by_cases hsign : 0 ≤ n
    · have hgroups := SignedGroups.positive (b := UInt8.ofNat (n % 128).toNat) (by omega)
      rwa [hbyte, show ((n % 128).toNat : Int) = n by omega] at hgroups
    · have hgroups := SignedGroups.negative (b := UInt8.ofNat (n % 128).toNat) (by omega) (by omega)
      rwa [hbyte, show ((n % 128).toNat : Int) - 128 = n by omega] at hgroups
  | case2 n h ih =>
    have hbyte : (UInt8.ofNat ((n % 128).toNat + 128)).toNat = (n % 128).toNat + 128 :=
      UInt8.toNat_ofNat_of_lt' (by simp only [UInt8.size]; omega)
    rw [writeSigned, if_neg h]
    have hgroups := SignedGroups.more (b := UInt8.ofNat ((n % 128).toNat + 128)) (by omega) ih
    rwa [hbyte, show (((n % 128).toNat + 128 : Nat) : Int) - 128 + 128 * (n / 128) = n by omega] at hgroups

theorem length_writeSigned {n : Int} {count : Nat} (hlow : -(64 * 128 ^ count) ≤ n) (hhigh : n < 64 * 128 ^ count) :
    (writeSigned n).length ≤ count + 1 := by
  induction count generalizing n with
  | zero =>
    rw [writeSigned, if_pos (by omega)]
    simp
  | succ count ih =>
    rw [writeSigned]
    split
    · simp
    · rw [pow_succ] at hlow hhigh
      have hrest := ih (n := n / 128) (by omega) (by omega)
      simpa using hrest

end FirmwareDebug.Leb128
