import FirmwareDebug.SortedSearch
import Mathlib.Data.List.Basic

/-!
# Searches find what they look for

In an array that is sorted by what a search asks for, the search by halves finds the one place where
the answer changes.
-/

namespace FirmwareDebug

/-- Halving keeps the answer inside the interval: what is before it holds, what is behind it fails. -/
theorem halve_spec {before : Nat → Bool} (hmono : ∀ i j, i ≤ j → before j = true → before i = true)
    {budget low high : Nat} (hbudget : high - low ≤ budget) (hle : low ≤ high)
    (hlow : ∀ i, i < low → before i = true) (hhigh : ∀ i, high ≤ i → before i = false) :
    (∀ i, i < halve before budget low high → before i = true) ∧
      ∀ i, halve before budget low high ≤ i → before i = false := by
  induction budget generalizing low high with
  | zero => exact ⟨hlow, fun i hi => hhigh i (by unfold halve at hi; omega)⟩
  | succ budget ih =>
    unfold halve
    split
    · simp only
      split
      · rename_i hmiddle
        exact ih (by omega) (by omega) (fun i hi => hmono i _ (by omega) hmiddle) hhigh
      · rename_i hmiddle
        refine ih (by omega) (by omega) hlow fun i hi => ?_
        rw [Bool.not_eq_true] at hmiddle
        by_contra hbefore
        rw [Bool.not_eq_false] at hbefore
        rw [hmono _ i hi hbefore] at hmiddle
        cases hmiddle
    · exact ⟨hlow, fun i hi => hhigh i (by omega)⟩

section

variable {α : Type} {xs : Array α}

theorem any_iff_lt_partitionPoint {before : α → Bool}
    (hsorted : xs.toList.Pairwise fun a b => before b = true → before a = true) (i : Nat) :
    xs[i]?.any before = true ↔ i < partitionPoint xs before := by
  have hmono : ∀ i j : Nat, i ≤ j → xs[j]?.any before = true → xs[i]?.any before = true := by
    intro i j hij hj
    rcases Nat.eq_or_lt_of_le hij with rfl | hlt
    · exact hj
    · rw [Option.any_eq_true] at hj ⊢
      obtain ⟨b, hb, hbefore⟩ := hj
      obtain ⟨hsize, rfl⟩ := Array.getElem?_eq_some_iff.mp hb
      refine ⟨xs[i], Array.getElem?_eq_getElem (by omega), ?_⟩
      exact List.pairwise_iff_getElem.mp hsorted i j (by simpa using by omega) (by simpa using hsize) hlt
        hbefore
  have hbehind : ∀ i : Nat, xs.size ≤ i → xs[i]?.any before = false := fun i hi => by
    rw [Array.getElem?_eq_none hi, Option.any_none]
  obtain ⟨hlow, hhigh⟩ := halve_spec hmono (Nat.le_refl xs.size) (Nat.zero_le _)
    (fun i hi => absurd hi (Nat.not_lt_zero i)) hbehind
  refine ⟨fun h => ?_, hlow i⟩
  by_contra hge
  rw [hhigh i (by unfold partitionPoint at hge; omega)] at h
  cases h

variable {key : α → UInt32}

theorem key_of_searchKey {i : Nat} {wanted : UInt32} (h : searchKey xs key wanted = some i) :
    ∃ x, xs[i]? = some x ∧ key x = wanted := by
  unfold searchKey at h
  simp only at h
  split at h
  · rename_i hfound
    cases h
    rw [Option.any_eq_true] at hfound
    obtain ⟨x, hx, hkey⟩ := hfound
    exact ⟨x, hx, of_decide_eq_true hkey⟩
  · cases h

theorem searchKey_eq_some (hsorted : xs.toList.Pairwise fun a b => key a < key b) {i : Nat}
    {wanted : UInt32} : searchKey xs key wanted = some i ↔ ∃ x, xs[i]? = some x ∧ key x = wanted := by
  have hbefore : ∀ i : Nat, xs[i]?.any (fun x => decide (key x < wanted)) = true ↔
      i < partitionPoint xs fun x => key x < wanted := by
    refine any_iff_lt_partitionPoint (hsorted.imp fun hab => ?_)
    simp only [decide_eq_true_eq]
    exact fun hb => UInt32.lt_trans hab hb
  constructor
  · exact key_of_searchKey
  · rintro ⟨x, hx, rfl⟩
    have hplace : (partitionPoint xs fun y => key y < key x) = i := by
      have hnot := hbefore i
      rw [hx, Option.any_some, decide_eq_true_eq] at hnot
      have hge : ¬ i < partitionPoint xs fun y => key y < key x := fun hlt =>
        UInt32.lt_irrefl _ (hnot.mpr hlt)
      by_contra hne
      -- An element further on that comes before the wanted one would have a larger key.
      obtain ⟨hsize, rfl⟩ := Array.getElem?_eq_some_iff.mp hx
      have hlt : partitionPoint xs (fun y => decide (key y < key xs[i])) < i := by omega
      have hprevious := List.pairwise_iff_getElem.mp hsorted _ i (by simpa using by omega)
        (by simpa using hsize) hlt
      refine Nat.lt_irrefl _ ((hbefore _).mp ?_)
      rw [Array.getElem?_eq_getElem (by omega), Option.any_some, decide_eq_true_eq]
      exact hprevious
    unfold searchKey
    simp only
    rw [hplace, hx, Option.any_some, if_pos (decide_eq_true rfl)]

end

end FirmwareDebug
