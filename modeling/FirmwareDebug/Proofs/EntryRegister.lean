import FirmwareDebug.Evaluate
import FirmwareDebug.Proofs.GroupedNumber

/-!
# Registers of entry values

An entry value names its register in groups of seven bits, as a register operation of an expression does. The two
are read alike but for operands of five groups, of which the last one is not looked at closely, and for longer ones,
which are not read at all.
-/

namespace FirmwareDebug

open Leb128

/-- The bytes are one number of a word and nothing else, as the compiler of expressions reads numbers. -/
def IsRegister (operand : List UInt8) (number : UInt32) : Prop :=
  ∃ next, Read.unsigned32 (.place Expression.region operand.toArray 0) = .ok number next ∧ next.atEnd = true

/-- What an operand names in an entry value is what the compiler reads of it. -/
def NamedAsRead (operand : List UInt8) : Prop :=
  ∀ number, entryRegister? (0x90 :: operand) = some number ↔ IsRegister operand number

/-! ## What an entry value takes for a register -/

theorem toNat_or_group {value : UInt32} {shift : Nat} (hshift : shift < 32) (hvalue : value.toNat < 2 ^ shift)
    (b : UInt8) : (value ||| (b &&& 0x7f).toUInt32 <<< UInt32.ofNat shift).toNat =
      value.toNat + b.toNat % 128 * 2 ^ shift % 2 ^ 32 := by
  have hcount : (UInt32.ofNat shift).toNat % 32 = shift := by
    rw [UInt32.toNat_ofNat_of_lt' (by simp only [UInt32.size]; omega), Nat.mod_eq_of_lt hshift]
  have hgroup : ((b &&& 0x7f).toUInt32).toNat = b.toNat % 128 := toNat_payload b
  rw [UInt32.toNat_or, UInt32.toNat_shiftLeft, hcount, hgroup, Nat.shiftLeft_eq,
    or_shifted (Nat.le_of_lt hshift) hvalue]

theorem ends_iff (b : UInt8) : b &&& 0x80 = 0 ↔ b.toNat < 128 := by
  rw [← Nat.not_le, ← continues_iff]
  simp [continues]

theorem registerOperand_eq_some {shift : Nat} {value number : UInt32} {operand : List UInt8}
    (hvalue : value.toNat < 2 ^ shift) : registerOperand shift value operand = some number ↔
      ∃ n, UnsignedGroups operand n ∧ shift + 7 * (operand.length - 1) < 32 ∧
        number.toNat = (value.toNat + n * 2 ^ shift) % 2 ^ 32 := by
  induction operand generalizing shift value with
  | nil =>
    refine ⟨nofun, ?_⟩
    rintro ⟨n, hgroups, -⟩
    cases hgroups
  | cons b rest ih =>
    rw [registerOperand]
    by_cases hwide : 32 ≤ shift
    · rw [if_pos hwide]
      refine ⟨nofun, ?_⟩
      rintro ⟨n, -, hplace, -⟩
      omega
    rw [if_neg hwide]
    have hshift : shift < 32 := Nat.lt_of_not_le hwide
    have hnumber := toNat_or_group hshift hvalue b
    generalize value ||| (b &&& 0x7f).toUInt32 <<< UInt32.ofNat shift = taken at hnumber
    by_cases hb : b.toNat < 128
    · rw [if_pos ((ends_iff b).mpr hb)]
      have hsum : (value.toNat + b.toNat * 2 ^ shift) % 2 ^ 32 = taken.toNat := by
        have hlt := taken.toNat_lt
        rw [hnumber, Nat.mod_eq_of_lt hb] at hlt ⊢
        rw [← Nat.add_mod_mod, Nat.mod_eq_of_lt hlt]
      constructor
      · intro h
        split at h
        · rename_i hrest
          obtain rfl := List.isEmpty_iff.mp hrest
          cases h
          exact ⟨b.toNat, .last hb, by simpa using hshift, hsum.symm⟩
        · cases h
      · rintro ⟨n, hgroups, -, hresult⟩
        cases hgroups with
        | last =>
          rw [List.isEmpty_nil, if_pos rfl, UInt32.toNat_inj.mp (hresult.trans hsum)]
        | more hmore => exact absurd hb (Nat.not_lt.mpr hmore)
    · rw [if_neg (mt (ends_iff b).mp hb)]
      have hfree : taken.toNat < 2 ^ (shift + 7) := by
        have hle := Nat.mod_le (b.toNat % 128 * 2 ^ shift) (2 ^ 32)
        have hgroup : b.toNat % 128 * 2 ^ shift ≤ 127 * 2 ^ shift := Nat.mul_le_mul_right _ (by omega)
        rw [Nat.pow_add]
        omega
      have hsum (m : Nat) : (value.toNat + (b.toNat - 128 + 128 * m) * 2 ^ shift) % 2 ^ 32 =
          (taken.toNat + m * 2 ^ (shift + 7)) % 2 ^ 32 := by
        have hbyte := b.toNat_lt
        rw [hnumber, show b.toNat % 128 = b.toNat - 128 by omega, Nat.add_right_comm, Nat.add_mod_mod]
        congr 1
        ring
      rw [ih hfree]
      constructor
      · rintro ⟨m, hgroups, hplace, hresult⟩
        have hpos := hgroups.length_pos
        refine ⟨_, .more (Nat.le_of_not_lt hb) hgroups, ?_, hresult.trans (hsum m).symm⟩
        rw [List.length_cons]
        omega
      · rintro ⟨n, hgroups, hplace, hresult⟩
        cases hgroups with
        | last hlast => exact absurd hlast hb
        | more _ hrest =>
          have hpos := hrest.length_pos
          rw [List.length_cons] at hplace
          exact ⟨_, hrest, by omega, hresult.trans (hsum _)⟩

theorem entryRegister?_eq_some {operand : List UInt8} {number : UInt32} :
    entryRegister? (0x90 :: operand) = some number ↔
      ∃ n, UnsignedGroups operand n ∧ operand.length ≤ 5 ∧ number = UInt32.ofNat n := by
  have hregister : entryRegister? (0x90 :: operand) = registerOperand 0 0 operand := by
    have hplain : ¬ (operand.isEmpty ∧ (0x50 : UInt8) ≤ 0x90 ∧ (0x90 : UInt8) < 0x70) := by simp
    rw [entryRegister?, if_neg hplain, if_pos rfl]
  rw [hregister, registerOperand_eq_some (by decide)]
  refine exists_congr fun n => and_congr_right fun hgroups => and_congr ?_ ?_
  · have hpos := hgroups.length_pos
    omega
  · rw [← UInt32.toNat_inj, UInt32.toNat_ofNat']
    simp

/-! ## What the compiler reads -/

theorem isRegister_iff {operand : List UInt8} {number : UInt32} : IsRegister operand number ↔
    ∃ n, UnsignedGroups operand n ∧ operand.length ≤ 10 ∧ n < 2 ^ 32 ∧ number = UInt32.ofNat n := by
  have hoperand : (Cursor.place Expression.region operand.toArray 0).Holds operand :=
    Cursor.Holds.place Expression.region [] operand
  constructor
  · rintro ⟨next, hread, hend⟩
    obtain ⟨hgroups, hlength⟩ := Read.groups_of_unsigned32 hread
    have hne := List.ne_nil_of_length_pos hgroups.length_pos
    have hholds := ((Read.gives_unsigned32 _ _ _ hread).1.holds hne).1
    have hend : next.limit ≤ next.position := by simpa [Cursor.atEnd] using hend
    have hrest : next.rest.toList = [] := by simp [Cursor.rest, hend]
    rw [hrest, List.append_nil] at hholds
    rw [hholds.rest_eq.symm.trans hoperand.rest_eq] at hgroups hlength
    exact ⟨_, hgroups, hlength, number.toNat_lt, (UInt32.ofNat_toNat).symm⟩
  · rintro ⟨n, hgroups, hlength, hlt, rfl⟩
    have hn : (UInt32.ofNat n).toNat = n := UInt32.toNat_ofNat_of_lt' hlt
    have hholds : (Cursor.place Expression.region operand.toArray 0).Holds (operand ++ []) := by
      rwa [List.append_nil]
    refine ⟨_, Read.yields_groups32 (hn.symm ▸ hgroups) hlength _ [] hholds, ?_⟩
    simp [Cursor.atEnd, Cursor.advance, Cursor.place]

/-! ## Where the two differ -/

/--
An operand is taken for the register that the compiler reads of it just in case it is no number of five groups
that a word does not hold, nor one of six to ten groups that a word holds.
-/
theorem namedAsRead_iff (operand : List UInt8) : NamedAsRead operand ↔ ∀ n, UnsignedGroups operand n →
    (operand.length = 5 → n < 2 ^ 32) ∧ (5 < operand.length → operand.length ≤ 10 → 2 ^ 32 ≤ n) := by
  simp only [NamedAsRead, entryRegister?_eq_some, isRegister_iff]
  constructor
  · intro hsame n hgroups
    constructor
    · intro hfive
      obtain ⟨m, hread, -, hfits, -⟩ := (hsame _).mp ⟨n, hgroups, Nat.le_of_eq hfive, rfl⟩
      rwa [hgroups.unique hread]
    · intro hlong hten
      by_contra hfits
      obtain ⟨-, -, hshort, -⟩ := (hsame _).mpr ⟨n, hgroups, hten, Nat.lt_of_not_le hfits, rfl⟩
      omega
  · intro hgood number
    constructor
    · rintro ⟨n, hgroups, hshort, rfl⟩
      refine ⟨n, hgroups, by omega, ?_, rfl⟩
      rcases Nat.lt_or_ge operand.length 5 with hless | hfive
      · have hlt := hgroups.lt
        have hfour : 128 ^ operand.length ≤ 128 ^ 4 := Nat.pow_le_pow_right (by omega) (by omega)
        omega
      · exact (hgood n hgroups).1 (by omega)
    · rintro ⟨n, hgroups, hten, hfits, rfl⟩
      refine ⟨n, hgroups, ?_, rfl⟩
      by_contra hlong
      exact absurd ((hgood n hgroups).2 (by omega) hten) (by omega)

/-- Five groups that write 2 to the power of 32. -/
def wideRegister : List UInt8 := [0x80, 0x80, 0x80, 0x80, 0x10]

/-- Register 1 in six groups. -/
def paddedRegister : List UInt8 := [0x81, 0x80, 0x80, 0x80, 0x80, 0]

theorem groups_wideRegister : UnsignedGroups wideRegister (2 ^ 32) :=
  .more (by decide) (.more (by decide) (.more (by decide) (.more (by decide) (.last (by decide)))))

theorem groups_paddedRegister : UnsignedGroups paddedRegister 1 := by
  have hlast : UnsignedGroups ([] ++ [1]) 1 := .last (by decide)
  exact hlast.padded 4

/-- One is taken for register 0, and the other one for none. -/
theorem not_namedAsRead_wide_padded : ¬ NamedAsRead wideRegister ∧ ¬ NamedAsRead paddedRegister := by
  constructor
  · intro hsame
    have htaken : entryRegister? (0x90 :: wideRegister) = some 0 := rfl
    obtain ⟨n, hgroups, -, hfits, -⟩ := isRegister_iff.mp ((hsame 0).mp htaken)
    rw [hgroups.unique groups_wideRegister] at hfits
    exact absurd hfits (Nat.lt_irrefl _)
  · intro hsame
    have hrefused : entryRegister? (0x90 :: paddedRegister) = none := rfl
    have htaken := (hsame 1).mpr (isRegister_iff.mpr ⟨1, groups_paddedRegister, by decide, by decide, rfl⟩)
    cases hrefused.symm.trans htaken

end FirmwareDebug
