import FirmwareDebug.Proofs.Written

/-!
# Reading numbers in groups of seven bits

What groups write is read back, with as many groups as 64 bits can need, and an unsigned number is read from
nothing else. The tenth group of a signed number is not looked at that closely: the number that was read is
the one that is written there just in case that group repeats the sign.
-/

namespace FirmwareDebug

theorem Cursor.Ahead.holds {c next : Cursor} (h : c.Ahead next) (hne : c.upTo next ≠ []) :
    c.Holds (c.upTo next ++ next.rest.toList) ∧ next = c.advance (c.upTo next).length := by
  obtain ⟨count, rfl, hcount⟩ := h
  have hinside : c.position + count ≤ c.limit := by
    refine hcount.resolve_left ?_
    rintro rfl
    exact hne c.upTo_self
  have hahead := c.ahead_advance hinside
  refine ⟨⟨by omega, (hahead.upTo_append_rest hinside).symm⟩, ?_⟩
  rw [hahead.length_upTo]
  simp [Cursor.advance]

namespace Read

open Leb128

variable {c next : Cursor}

/-! ## Numbers of both kinds -/

theorem groups_of_unsigned {value : UInt64} (h : unsigned c = .ok value next) :
    UnsignedGroups (c.upTo next) value.toNat ∧ (c.upTo next).length ≤ 10 := by
  obtain ⟨-, htaken⟩ := takes_unsigned c value next h
  obtain ⟨n, hgroups, hlength, hvalue⟩ := groups_of_unsignedFrom (by omega) (by simp) (htaken.trans (by rw [Nat.zero_add]))
  have hn : value.toNat = n := by simpa using hvalue
  exact ⟨hn ▸ hgroups, by omega⟩

theorem groups_of_unsigned32 {value : UInt32} (h : unsigned32 c = .ok value next) :
    UnsignedGroups (c.upTo next) value.toNat ∧ (c.upTo next).length ≤ 10 := by
  rw [run_unsigned32] at h
  obtain ⟨wide, last, hwide, hlast⟩ := ran_of_bind h
  split at hlast
  · rename_i hfits
    cases hlast
    have hvalue : wide.toUInt32.toNat = wide.toNat := by
      rw [UInt64.toNat_toUInt32, Nat.mod_eq_of_lt hfits]
    rw [hvalue]
    exact groups_of_unsigned hwide
  · cases hlast

theorem groups_of_signed {value : Int64} (h : signed c = .ok value next) :
    ∃ n, SignedGroups (c.upTo next) n ∧ (c.upTo next).length ≤ 10 ∧ value = Int64.ofInt n := by
  obtain ⟨hahead, htaken⟩ := takes_signed c value next h
  obtain ⟨n, hgroups, hlength⟩ := groups_of_signedFrom (htaken.trans (by rw [Nat.zero_add]))
  have hten : (c.upTo next).length ≤ 10 := by omega
  have hne : c.upTo next ≠ [] := List.ne_nil_of_length_pos hgroups.length_pos
  have hread := yields_signed hgroups hten c _ (hahead.holds hne).1
  exact ⟨n, hgroups, hten, (EStateM.Result.ok.inj (h.symm.trans hread)).1⟩

/-- Groups that write a number of 64 bits, ten of them at most, are read back; and an unsigned number
that is read was written so. -/
theorem written_numbers_read (c : Cursor) :
    (∀ (value : UInt64) groups behind, c.Holds (groups ++ behind) → UnsignedGroups groups value.toNat →
      groups.length ≤ 10 → unsigned c = .ok value (c.advance groups.length)) ∧
    (∀ (value : Int64) groups behind, c.Holds (groups ++ behind) → SignedGroups groups value.toInt →
      groups.length ≤ 10 → signed c = .ok value (c.advance groups.length)) ∧
    (∀ value next, unsigned c = .ok value next → ∃ groups behind, c.Holds (groups ++ behind) ∧
      UnsignedGroups groups value.toNat ∧ groups.length ≤ 10 ∧ next = c.advance groups.length) := by
  refine ⟨fun value groups behind hc hgroups hlength => ?_, fun value groups behind hc hgroups hlength => ?_,
    fun value next hread => ?_⟩
  · have hyields := yields_unsigned hgroups hlength value.toNat_lt
    rw [UInt64.ofNat_toNat] at hyields
    exact hyields c behind hc
  · have hyields := yields_signed hgroups hlength
    rw [Int64.ofInt_toInt] at hyields
    exact hyields c behind hc
  · obtain ⟨hgroups, hlength⟩ := groups_of_unsigned hread
    have hne : c.upTo next ≠ [] := List.ne_nil_of_length_pos hgroups.length_pos
    obtain ⟨hc, hnext⟩ := (takes_unsigned c value next hread).1.holds hne
    exact ⟨_, _, hc, hgroups, hlength, hnext⟩

/-- The number one in ten groups, and a byte behind it. -/
def paddedOne : Cursor := .place ".debug_info" #[0x81, 0x80, 0x80, 0x80, 0x80, 0x80, 0x80, 0x80, 0x80, 0, 5] 0

/-- The number -1 in ten groups, and a byte behind it. -/
def paddedMinusOne : Cursor :=
  .place ".debug_info" #[0xff, 0xff, 0xff, 0xff, 0xff, 0xff, 0xff, 0xff, 0xff, 0x7f, 5] 0

theorem padded_numbers_read : unsigned paddedOne = .ok 1 (paddedOne.advance 10) ∧
    signed paddedMinusOne = .ok (-1) (paddedMinusOne.advance 10) := by
  have hone : UnsignedGroups [0x81, 0x80, 0x80, 0x80, 0x80, 0x80, 0x80, 0x80, 0x80, 0] (1 : UInt64).toNat := by
    have hlast : UnsignedGroups ([] ++ [1]) (1 : UInt64).toNat := .last (by decide)
    exact hlast.padded 8
  have hminus : SignedGroups [0xff, 0xff, 0xff, 0xff, 0xff, 0xff, 0xff, 0xff, 0xff, 0x7f] (-1 : Int64).toInt := by
    have hlast : SignedGroups ([] ++ [0x7f]) (-1 : Int64).toInt := .negative (by decide) (by decide)
    exact hlast.padded 8
  exact ⟨(written_numbers_read paddedOne).1 1 _ [5] ⟨by decide, rfl⟩ hone (by decide),
    (written_numbers_read paddedMinusOne).2.1 (-1) _ [5] ⟨by decide, rfl⟩ hminus (by decide)⟩

/-! ## The tenth group of a signed number -/

/--
What can be asked of the reading of a signed number: the bytes that it takes write the number that it gives,
and what 64 bits do not hold is a defect.
-/
structure SignedSound (c : Cursor) : Prop where
  written : ∀ value next, signed c = .ok value next → SignedGroups (c.upTo next) value.toInt
  rejected : ∀ groups behind n, c.Holds (groups ++ behind) → SignedGroups groups n → ¬ FitsLong n →
    ∃ next, signed c = .error (c.fault .signedTooWide) next

theorem toInt_ofInt_of_fitsLong {n : Int} (h : FitsLong n) : (Int64.ofInt n).toInt = n :=
  Int64.toInt_ofInt_of_le h.1 h.2

theorem signed_tooWide {groups behind : List UInt8} {n : Int} (hc : c.Holds (groups ++ behind))
    (hgroups : SignedGroups groups n) (hlength : 10 < groups.length) :
    ∃ next, signed c = .error (c.fault .signedTooWide) next := by
  have hsplit : groups = groups.take 10 ++ groups[10] :: groups.drop 11 := by
    rw [← List.drop_eq_getElem_cons, List.take_append_drop]
  have hfront : (groups.take 10).length = 10 := by
    rw [List.length_take]
    omega
  have hcontinuing := (hsplit ▸ hgroups).continuing (List.cons_ne_nil _ _)
  obtain ⟨last, hdecode⟩ := signedFrom_tooWide hcontinuing groups[10] []
    (show 64 ≤ 0 + 7 * (groups.take 10).length by omega) 0 0
  have hwindow : (c.window maxBytes).toList = groups.take 10 ++ [groups[10]] := by
    rw [hc.window_eq, maxBytes, List.take_append_of_le_length (by omega), List.take_add_one,
      List.getElem?_eq_getElem hlength]
    rfl
  refine ⟨c.advance last, ?_⟩
  unfold signed leb128
  rw [hwindow, hdecode]

/-- Signed numbers are read soundly just in case a tenth group, where it is the last, repeats the sign. -/
theorem signedSound_iff (c : Cursor) : SignedSound c ↔
    ∀ front b behind, c.Holds (front ++ b :: behind) → front.length = 9 → (∀ x ∈ front, 128 ≤ x.toNat) →
      b.toNat < 128 → b = 0 ∨ b = 0x7f := by
  constructor
  · intro hsound front b behind hc hlength hfront hb
    obtain ⟨n, hgroups⟩ := exists_signedGroups hfront hb
    have hholds : c.Holds ((front ++ [b]) ++ behind) := by simpa using hc
    rw [← hgroups.fitsLong_iff hlength]
    by_contra hwide
    obtain ⟨next, hfailed⟩ := hsound.rejected _ _ n hholds hgroups hwide
    rw [yields_signed hgroups (by simp [hlength]) c behind hholds] at hfailed
    cases hfailed
  · intro htenth
    -- What is read or refused has ten groups at most, and of ten the last one repeats the sign.
    have hfits {groups behind : List UInt8} {n : Int} (hc : c.Holds (groups ++ behind))
        (hgroups : SignedGroups groups n) (hlength : groups.length ≤ 10) : FitsLong n := by
      rcases Nat.lt_or_ge groups.length 10 with hshort | hten
      · exact hgroups.fitsLong_of_short (by omega)
      · obtain ⟨front, b, rfl⟩ : ∃ front b, groups = front ++ [b] :=
          ⟨_, _, (List.dropLast_append_getLast (List.ne_nil_of_length_pos hgroups.length_pos)).symm⟩
        have hnine : front.length = 9 := by
          rw [List.length_append, List.length_singleton] at hten hlength
          omega
        rw [hgroups.fitsLong_iff hnine]
        exact htenth front b behind (by simpa using hc) hnine (hgroups.continuing (List.cons_ne_nil _ _))
          hgroups.split.1
    constructor
    · intro value next hread
      obtain ⟨n, hgroups, hlength, rfl⟩ := groups_of_signed hread
      have hne : c.upTo next ≠ [] := List.ne_nil_of_length_pos hgroups.length_pos
      have hc := ((takes_signed c _ next hread).1.holds hne).1
      rwa [toInt_ofInt_of_fitsLong (hfits hc hgroups hlength)]
    · intro groups behind n hc hgroups hwide
      refine signed_tooWide hc hgroups (Nat.lt_of_not_le fun hlength => hwide ?_)
      exact hfits hc hgroups hlength

/-- Ten groups of which the last counts two at its place, which is 2 to the power of 64. -/
def wideSigned : Cursor := .place ".debug_info" #[0x80, 0x80, 0x80, 0x80, 0x80, 0x80, 0x80, 0x80, 0x80, 2] 0

/-- The bits of the tenth group are dropped, and the number is read as zero. -/
theorem not_signedSound_wideSigned : ¬ SignedSound wideSigned := by
  intro hsound
  have hread : signed wideSigned = .ok 0 (wideSigned.advance 10) := rfl
  have hgroups := hsound.written 0 _ hread
  have hsplit : SignedGroups ([0x80, 0x80, 0x80, 0x80, 0x80, 0x80, 0x80, 0x80, 0x80] ++ [2]) 0 := hgroups
  have hlow := hsplit.split.2.1
  revert hlow
  decide

end Read

end FirmwareDebug
