import FirmwareDebug.CallFrame.Table
import FirmwareDebug.Proofs.Keeps
import FirmwareDebug.Proofs.Search

/-!
# Descriptions that hide others

A scan of the section finds a description of every address that one covers. The search in the sorted
table looks at one description only, the last that starts at or before the address. Where that one is
too short, it hides an earlier one that goes further.
-/

namespace FirmwareDebug.CallFrame

/-- The address behind the described code; it may be past the last one. -/
def Description.stop (d : Description) : Nat := d.start.toNat + d.length.toNat

theorem Description.covers_iff {d : Description} {address : UInt32} :
    d.covers address = true ↔ d.start.toNat ≤ address.toNat ∧ address.toNat < d.stop := by
  unfold Description.covers Description.stop
  simp only [Bool.and_eq_true, decide_eq_true_eq, UInt32.le_iff_toNat_le, UInt32.lt_iff_toNat_lt]
  constructor
  · rintro ⟨hstart, hlength⟩
    rw [UInt32.toNat_sub_of_le _ _ (UInt32.le_iff_toNat_le.mpr hstart)] at hlength
    exact ⟨hstart, by omega⟩
  · rintro ⟨hstart, hstop⟩
    refine ⟨hstart, ?_⟩
    rw [UInt32.toNat_sub_of_le _ _ (UInt32.le_iff_toNat_le.mpr hstart)]
    omega

/-- The descriptions of a section, in the order in which they stand there. -/
def describedIn (bytes : Bytes) : Except Fault (List Description) := do
  let found ← (Decoded.ofCursor readDescription (.place region bytes 0)).all
  return found.filterMap id

namespace Table

/-- How many descriptions start at or before an address. -/
def starting (table : Table) (address : UInt32) : Nat :=
  partitionPoint table.descriptions fun d => d.start ≤ address

/-- Where the next description starts; behind the last one this is the end of the addresses. -/
def startBehind (table : Table) (i : Nat) : Nat :=
  table.descriptions[i + 1]?.elim (2 ^ 32) (·.start.toNat)

/-- No description goes further than a later one, up to where the next one starts. -/
def NoneHidden (table : Table) : Prop :=
  ∀ (j : Nat) (hj : j < table.descriptions.size) (i : Nat) (hi : i < j),
    min table.descriptions[i].stop (table.startBehind j) ≤ table.descriptions[j].stop

instance (table : Table) : Decidable table.NoneHidden :=
  inferInstanceAs (Decidable (∀ (j : Nat) (hj : j < table.descriptions.size) (i : Nat) (hi : i < j),
    min table.descriptions[i].stop (table.startBehind j) ≤ table.descriptions[j].stop))

/-- The search finds a description that covers an address exactly where a scan finds one. -/
def AgreesWithScan (table : Table) (described : List Description) : Prop :=
  ∀ address, (∃ d, table.descriptionAt address = some d ∧ d.covers address = true) ↔
    ∃ d ∈ described, d.covers address = true

def Sorted (table : Table) : Prop :=
  table.descriptions.toList.Pairwise fun a b => a.start.toNat ≤ b.start.toNat

theorem startBehind_le (table : Table) (i : Nat) : table.startBehind i ≤ 2 ^ 32 := by
  unfold startBehind
  cases table.descriptions[i + 1]? with
  | none => exact Nat.le_refl _
  | some next => exact Nat.le_of_lt next.start.toNat_lt

section

variable {table : Table} (hsorted : table.Sorted)
include hsorted

theorem start_le {i j : Nat} (hij : i ≤ j) (hj : j < table.descriptions.size) :
    table.descriptions[i].start.toNat ≤ table.descriptions[j].start.toNat := by
  rcases Nat.eq_or_lt_of_le hij with rfl | hlt
  · exact Nat.le_refl _
  · exact List.pairwise_iff_getElem.mp hsorted i j (by simpa using by omega) (by simpa using hj) hlt

/-! ## The search -/

variable {address : UInt32}

theorem any_iff_lt_starting (address : UInt32) (i : Nat) :
    table.descriptions[i]?.any (fun d => decide (d.start ≤ address)) = true ↔
      i < table.starting address := by
  refine any_iff_lt_partitionPoint (hsorted.imp fun hab => ?_) i
  simp only [decide_eq_true_eq, UInt32.le_iff_toNat_le]
  omega

theorem start_le_iff {i : Nat} (hi : i < table.descriptions.size) :
    table.descriptions[i].start.toNat ≤ address.toNat ↔ i < table.starting address := by
  rw [← any_iff_lt_starting hsorted, Array.getElem?_eq_getElem hi, Option.any_some, decide_eq_true_eq,
    UInt32.le_iff_toNat_le]

theorem lt_startBehind_iff {i : Nat} :
    address.toNat < table.startBehind i ↔ table.starting address ≤ i + 1 := by
  unfold startBehind
  cases hnext : table.descriptions[i + 1]? with
  | none =>
    have hnot := any_iff_lt_starting hsorted address (i + 1)
    rw [hnext, Option.any_none] at hnot
    have hge : ¬ i + 1 < table.starting address := fun hlt => Bool.false_ne_true (hnot.mpr hlt)
    have := address.toNat_lt
    simp only [Option.elim_none]
    omega
  | some next =>
    obtain ⟨hlt, rfl⟩ := Array.getElem?_eq_some_iff.mp hnext
    have : table.descriptions[i + 1].start.toNat ≤ address.toNat ↔ _ := start_le_iff hsorted hlt
    simp only [Option.elim_some]
    omega

/-- The description found is the last one that starts at or before the address, if it goes that far. -/
theorem descriptionAt_eq_some {d : Description} :
    table.descriptionAt address = some d ↔ ∃ (i : Nat) (hi : i < table.descriptions.size),
      table.descriptions[i] = d ∧ address.toNat < table.startBehind i ∧ d.covers address = true := by
  unfold descriptionAt
  change (if table.starting address = 0 then none else
    table.descriptions[table.starting address - 1]?.filter (·.covers address)) = some d ↔ _
  constructor
  · intro h
    split at h
    · cases h
    · obtain ⟨hplace, hcovers⟩ := Option.filter_eq_some_iff.mp h
      obtain ⟨hi, hd⟩ := Array.getElem?_eq_some_iff.mp hplace
      exact ⟨_, hi, hd, (lt_startBehind_iff hsorted).mpr (by omega), hcovers⟩
  · rintro ⟨i, hi, rfl, hnext, hcovers⟩
    have hlow := (start_le_iff hsorted hi).mp (Description.covers_iff.mp hcovers).1
    have hhigh := (lt_startBehind_iff hsorted).mp hnext
    have hcount : table.starting address = i + 1 := by omega
    rw [hcount, if_neg (Nat.succ_ne_zero i), Nat.add_sub_cancel, Array.getElem?_eq_getElem hi]
    exact Option.filter_eq_some_iff.mpr ⟨rfl, hcovers⟩

theorem exists_last {i : Nat} (hi : i < table.descriptions.size)
    (hstart : table.descriptions[i].start.toNat ≤ address.toNat) :
    ∃ (j : Nat) (hj : j < table.descriptions.size), i ≤ j ∧
      table.descriptions[j].start.toNat ≤ address.toNat ∧ address.toNat < table.startBehind j := by
  have hlt := (start_le_iff hsorted hi).mp hstart
  have hlast := (any_iff_lt_starting hsorted address (table.starting address - 1)).mpr (by omega)
  obtain ⟨d, hd, -⟩ := (Option.any_eq_true _ _).mp hlast
  obtain ⟨hj, -⟩ := Array.getElem?_eq_some_iff.mp hd
  refine ⟨_, hj, by omega, (start_le_iff hsorted hj).mpr (by omega), ?_⟩
  exact (lt_startBehind_iff hsorted).mpr (by omega)

/-! ## The search against the scan -/

theorem noneHidden_of_found (hfound : ∀ address, ∀ d ∈ table.descriptions, d.covers address = true →
    ∃ found, table.descriptionAt address = some found) : table.NoneHidden := by
  intro j hj i hi
  by_contra hlost
  have hbehind := table.startBehind_le j
  have hstop : table.descriptions[j].stop < 2 ^ 32 := by omega
  have haddress : (UInt32.ofNat table.descriptions[j].stop).toNat = table.descriptions[j].stop :=
    UInt32.toNat_ofNat_of_lt' hstop
  have hstart := start_le hsorted (Nat.le_of_lt hi) hj
  have hle : table.descriptions[j].start.toNat ≤ table.descriptions[j].stop := Nat.le_add_right _ _
  have hcovers : table.descriptions[i].covers (.ofNat table.descriptions[j].stop) = true := by
    rw [Description.covers_iff, haddress]
    omega
  obtain ⟨found, hat⟩ := hfound _ _ (Array.getElem_mem _) hcovers
  obtain ⟨k, hk, rfl, hnext, hcovered⟩ := (descriptionAt_eq_some hsorted).mp hat
  -- Only the description at `j` can be found there, and it ends there.
  have hjk : k = j := by
    have hk' := (start_le_iff hsorted hk).mp (Description.covers_iff.mp hcovered).1
    have hj' := (start_le_iff hsorted hj).mp (Nat.le_trans hle (Nat.le_of_eq haddress.symm))
    have hnext' : (UInt32.ofNat table.descriptions[j].stop).toNat < table.startBehind j := by omega
    rw [lt_startBehind_iff hsorted] at hnext hnext'
    omega
  subst hjk
  rw [Description.covers_iff, haddress] at hcovered
  exact Nat.lt_irrefl _ hcovered.2

theorem found_of_noneHidden (hnone : table.NoneHidden) {d : Description} (hd : d ∈ table.descriptions)
    (hcovers : d.covers address = true) : ∃ found, table.descriptionAt address = some found := by
  obtain ⟨i, hi, rfl⟩ := Array.mem_iff_getElem.mp hd
  rw [Description.covers_iff] at hcovers
  obtain ⟨j, hj, hij, hstart, hnext⟩ := exists_last hsorted hi hcovers.1
  refine ⟨table.descriptions[j], (descriptionAt_eq_some hsorted).mpr ⟨j, hj, rfl, hnext, ?_⟩⟩
  rw [Description.covers_iff]
  rcases Nat.eq_or_lt_of_le hij with rfl | hlt
  · exact hcovers
  · have := hnone j hj i hlt
    exact ⟨hstart, by omega⟩

theorem noneHidden_of_separate (hlength : ∀ d ∈ table.descriptions, 0 < d.length)
    (hseparate : table.descriptions.toList.Pairwise fun d e =>
      ∀ address, ¬ (d.covers address = true ∧ e.covers address = true)) : table.NoneHidden := by
  intro j hj i hi
  have hstart := start_le hsorted (Nat.le_of_lt hi) hj
  have hpositive := UInt32.lt_iff_toNat_lt.mp (hlength _ (Array.getElem_mem hj))
  have happart := List.pairwise_iff_getElem.mp hseparate i j (by simpa using by omega) (by simpa using hj) hi
    table.descriptions[j].start
  simp only [Array.getElem_toList, Description.covers_iff, Description.stop] at happart
  rw [UInt32.toNat_zero] at hpositive
  unfold Description.stop
  omega

end

/-! ## Tables of sections -/

theorem read_of_described {bytes : Bytes} {described : List Description}
    (h : describedIn bytes = .ok described) :
    Table.read bytes = .ok ⟨bytes, (described.mergeSort fun a b => a.start ≤ b.start).toArray⟩ := by
  obtain ⟨found, hfound, hdescribed⟩ := ok_of_bind h
  cases hdescribed
  unfold Table.read
  rw [hfound]
  rfl

theorem sorted_of_read {bytes : Bytes} {table : Table} (h : Table.read bytes = .ok table) :
    ∃ described, describedIn bytes = .ok described ∧ table.descriptions.toList.Perm described ∧
      table.Sorted := by
  obtain ⟨found, hfound, htable⟩ := ok_of_bind h
  cases htable
  refine ⟨found.filterMap id, ?_, ?_, ?_⟩
  · unfold describedIn
    rw [hfound]
    rfl
  · exact List.mergeSort_perm _ _
  · refine (List.pairwise_mergeSort ?_ ?_ _).imp fun hab => UInt32.le_iff_toNat_le.mp (of_decide_eq_true hab)
    · intro a b c
      simp only [decide_eq_true_eq]
      exact UInt32.le_trans
    · intro a b
      simp only [Bool.or_eq_true, decide_eq_true_eq]
      exact UInt32.le_total a.start b.start

/--
The search finds descriptions of the section that cover the address. It finds one for every address
that a scan finds one for exactly when none is hidden, so always when descriptions are not empty and
share no address.
-/
theorem agreesWithScan_iff {bytes : Bytes} {table : Table} (h : Table.read bytes = .ok table) :
    ∃ described, describedIn bytes = .ok described ∧
      (∀ address d, table.descriptionAt address = some d → d ∈ described ∧ d.covers address = true) ∧
      (table.AgreesWithScan described ↔ table.NoneHidden) ∧
      ((∀ d ∈ described, 0 < d.length) →
        (described.Pairwise fun d e => ∀ address, ¬ (d.covers address = true ∧ e.covers address = true)) →
        table.AgreesWithScan described) := by
  obtain ⟨described, hdescribed, hperm, hsorted⟩ := sorted_of_read h
  have hmem : ∀ {d}, d ∈ described ↔ d ∈ table.descriptions := fun {d} => by
    rw [← hperm.mem_iff, Array.mem_toList_iff]
  have hfound : ∀ address d, table.descriptionAt address = some d →
      d ∈ described ∧ d.covers address = true := by
    intro address d hd
    obtain ⟨i, hi, rfl, -, hcovers⟩ := (descriptionAt_eq_some hsorted).mp hd
    exact ⟨hmem.mpr (Array.getElem_mem hi), hcovers⟩
  have hagrees : table.AgreesWithScan described ↔ table.NoneHidden := by
    constructor
    · intro hscan
      refine noneHidden_of_found hsorted fun address d hd hcovers => ?_
      obtain ⟨found, hat, -⟩ := (hscan address).mpr ⟨d, hmem.mpr hd, hcovers⟩
      exact ⟨found, hat⟩
    · intro hnone address
      constructor
      · rintro ⟨d, hd, hcovers⟩
        exact ⟨d, (hfound address d hd).1, hcovers⟩
      · rintro ⟨d, hd, hcovers⟩
        obtain ⟨found, hat⟩ := found_of_noneHidden hsorted hnone (hmem.mp hd) hcovers
        exact ⟨found, hat, (hfound address found hat).2⟩
  refine ⟨described, hdescribed, hfound, hagrees, fun hlength hseparate => hagrees.mpr ?_⟩
  refine noneHidden_of_separate hsorted (fun d hd => hlength d (hmem.mpr hd)) ?_
  refine (hperm.pairwise_iff ?_).mpr hseparate
  exact fun hab address hba => hab address hba.symm

/-- Two functions, the later one described first. -/
def twoFunctions : Table where
  bytes :=
    #[12, 0, 0, 0, 0, 0, 0, 0, 0x40, 1, 0, 0, 0x20, 0, 0, 0,
      12, 0, 0, 0, 0, 0, 0, 0, 0, 1, 0, 0, 0x40, 0, 0, 0]
  descriptions := #[⟨16, 0, 0x100, 0x40, []⟩, ⟨0, 0, 0x140, 0x20, []⟩]

theorem agreesWithScan_twoFunctions :
    Table.read twoFunctions.bytes = .ok twoFunctions ∧ twoFunctions.NoneHidden ∧
      twoFunctions.AgreesWithScan twoFunctions.descriptions.toList.reverse := by
  have hread : Table.read twoFunctions.bytes = .ok twoFunctions := by
    rw [@read_of_described _ twoFunctions.descriptions.toList.reverse rfl]
    simp [twoFunctions, List.mergeSort]
  have hnone : twoFunctions.NoneHidden := by decide
  obtain ⟨described, hdescribed, -, hagrees, -⟩ := agreesWithScan_iff hread
  cases hdescribed
  exact ⟨hread, hnone, hagrees.mpr hnone⟩

/-- A function and, at the same address, what is left of one that was discarded. -/
def discardedFunction : Table where
  bytes :=
    #[12, 0, 0, 0, 0, 0, 0, 0, 0, 1, 0, 0, 0x40, 0, 0, 0,
      12, 0, 0, 0, 0, 0, 0, 0, 0, 1, 0, 0, 0, 0, 0, 0]
  descriptions := #[⟨0, 0, 0x100, 0x40, []⟩, ⟨16, 0, 0x100, 0, []⟩]

/-- The empty description is the last one and hides the other. -/
theorem not_agreesWithScan_discardedFunction :
    Table.read discardedFunction.bytes = .ok discardedFunction ∧
      describedIn discardedFunction.bytes = .ok discardedFunction.descriptions.toList ∧
      ¬ discardedFunction.AgreesWithScan discardedFunction.descriptions.toList := by
  refine ⟨?_, rfl, fun hscan => ?_⟩
  · rw [@read_of_described _ discardedFunction.descriptions.toList rfl]
    simp [discardedFunction, List.mergeSort]
  · obtain ⟨found, hat, -⟩ := (hscan 0x104).mpr ⟨_, .head _, rfl⟩
    have hnone : discardedFunction.descriptionAt 0x104 = none := by decide
    cases hnone.symm.trans hat

end Table

end FirmwareDebug.CallFrame
