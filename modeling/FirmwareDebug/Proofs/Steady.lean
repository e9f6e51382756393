import FirmwareDebug.Proofs.Form
import FirmwareDebug.Proofs.Local

/-!
# Reads that succeed do not look further

What was read where a unit ends is read again where the bytes go on behind it. So a read that succeeds tells the same on
every cursor that may read more. This is found by instances, as is what reads see of the bytes before their end.
-/

namespace FirmwareDebug

/-- The second cursor is at the same place and may read all that the first one may, and perhaps more behind it. -/
structure Cursor.PartOf (c d : Cursor) : Prop where
  region : c.region = d.region
  position : c.position = d.position
  limit : c.limit ≤ d.limit
  bytes : ∀ i < c.limit, c.bytes[i]? = d.bytes[i]?

namespace Cursor.PartOf

variable {c d : Cursor}

theorem advance (h : PartOf c d) (count : Nat) : PartOf (c.advance count) (d.advance count) where
  region := h.region
  position := congrArg (· + count) h.position
  limit := h.limit
  bytes := h.bytes

theorem extract_eq (h : PartOf c d) {start stop : Nat} (hstop : stop ≤ c.limit) :
    c.bytes.extract start stop = d.bytes.extract start stop := by
  have hc := c.limit_le
  have hd := d.limit_le
  have hlimit := h.limit
  exact extract_congr (by omega) (by omega) fun i _ hi => h.bytes i (by omega)

theorem window_eq (h : PartOf c d) {count : Nat} (hcount : c.position + count ≤ c.limit) :
    c.window count = d.window count := by
  have hlimit := h.limit
  rw [window, window, ← h.position, Nat.min_eq_right hcount, Nat.min_eq_right (by omega)]
  exact h.extract_eq hcount

theorem window_prefix (h : PartOf c d) (count : Nat) :
    ∃ more, (d.window count).toList = (c.window count).toList ++ more := by
  have hlimit := h.limit
  obtain ⟨more, hmore⟩ : (c.window count).toList <+: (d.window count).toList := by
    rw [window, window, ← h.position, h.extract_eq (Nat.min_le_left _ _), Array.toList_extract, Array.toList_extract,
      List.extract_eq_take_drop, List.extract_eq_take_drop]
    exact List.take_prefix_take_left (by omega)
  exact ⟨more, hmore.symm⟩

theorem lengthToZero_eq (h : PartOf c d) {left left' count length : Nat} (hinside : c.position + count + left ≤ c.limit)
    (hleft : left ≤ left') (hlength : c.lengthToZero left count = some length) :
    d.lengthToZero left' count = some length := by
  induction left generalizing left' count with
  | zero => cases hlength
  | succ left ih =>
    obtain _ | left' := left'
    · cases hleft
    · rw [lengthToZero] at hlength ⊢
      rw [← h.position, ← h.bytes _ (by omega)]
      split at hlength
      · rwa [if_pos ‹_›]
      · rw [if_neg ‹_›]
        exact ih (by omega) (by omega) hlength

end Cursor.PartOf

/-- A read that, where it succeeds, does the same on every cursor that may read more. -/
class Steady {α : Type} (read : Read α) : Prop where
  again : ∀ {c d next : Cursor} {a : α}, c.PartOf d → read c = .ok a next →
    ∃ last, read d = .ok a last ∧ next.PartOf last

namespace Steady

variable {α β : Type} {read other : Read α}

instance pure (a : α) : Steady (pure a : Read α) where
  again hpart h := by
    cases h
    exact ⟨_, rfl, hpart⟩

instance throw (e : Fault) : Steady (throw e : Read α) := ⟨fun _ h => nomatch h⟩

instance malformed (defect : Defect) : Steady (Read.malformed defect : Read α) := ⟨fun _ h => nomatch h⟩

instance bind {f : α → Read β} [hread : Steady read] [hf : ∀ a, Steady (f a)] : Steady (read >>= f) where
  again hpart h := by
    obtain ⟨a, middle, hfirst, h⟩ := ran_of_bind h
    obtain ⟨middle', hfirst', hpart'⟩ := hread.again hpart hfirst
    obtain ⟨last, hlast, hpart''⟩ := (hf a).again hpart' h
    refine ⟨last, ?_, hpart''⟩
    rw [run_bind_of_ok hfirst']
    exact hlast

instance map {f : α → β} [Steady read] : Steady (f <$> read) := by
  rw [← bind_pure_comp]
  infer_instance

instance discard [Steady read] : Steady (discard read) := by
  rw [discard_eq]
  infer_instance

instance ite {p : Prop} [Decidable p] [Steady read] [Steady other] : Steady (if p then read else other) := by
  split <;> assumption

end Steady

namespace Leb128

theorem unsignedFrom_append {bytes : List UInt8} {shift used last : Nat} {value result : UInt64}
    (h : unsignedFrom shift used value bytes = .number result last) (more : List UInt8) :
    unsignedFrom shift used value (bytes ++ more) = .number result last := by
  induction bytes generalizing shift used value with
  | nil => cases h
  | cons b rest ih =>
    simp only [List.cons_append, unsignedFrom] at h ⊢
    split at h
    · cases h
    · rw [if_neg ‹_›]
      split at h
      · rw [if_pos ‹_›]
        exact ih h
      · rwa [if_neg ‹_›]

theorem signedFrom_append {bytes : List UInt8} {shift used last : Nat} {value : UInt64} {result : Int64}
    (h : signedFrom shift used value bytes = .number result last) (more : List UInt8) :
    signedFrom shift used value (bytes ++ more) = .number result last := by
  induction bytes generalizing shift used value with
  | nil => cases h
  | cons b rest ih =>
    simp only [List.cons_append, signedFrom] at h ⊢
    split at h
    · cases h
    · rw [if_neg ‹_›]
      split at h
      · rw [if_pos ‹_›]
        exact ih h
      · rwa [if_neg ‹_›]

end Leb128

namespace Read

/-! ## Bytes and numbers -/

instance (length : Nat) : Steady (bytes length) where
  again {c d next taken} hpart h := by
    have hlimit := hpart.limit
    unfold bytes at h ⊢
    split at h
    · rename_i hinside
      cases h
      rw [if_pos (by rw [← hpart.position]; omega), hpart.window_eq hinside]
      exact ⟨_, rfl, hpart.advance length⟩
    · cases h

instance (length : Nat) : Steady (skip length) where
  again {c d next _} hpart h := by
    have hlimit := hpart.limit
    unfold skip at h ⊢
    split at h
    · cases h
      rw [if_pos (by rw [← hpart.position]; omega)]
      exact ⟨_, rfl, hpart.advance length⟩
    · cases h

instance : Steady byte where
  again {c d next b} hpart h := by
    have hlimit := hpart.limit
    have hposition := hpart.position
    obtain ⟨hinside, hbyte, rfl⟩ := run_byte_eq_ok_iff.mp h
    refine ⟨_, run_byte_eq_ok_iff.mpr ⟨by omega, ?_, rfl⟩, hpart.advance 1⟩
    rw [← hposition, ← hpart.bytes c.position hinside, hbyte]

instance : Steady text where
  again {c d next s} hpart h := by
    unfold text at h ⊢
    split at h
    · rename_i length hlength
      obtain ⟨hshort, -⟩ := lengthToZero_spec hlength
      have hleft : c.left ≤ d.left := by
        unfold Cursor.left
        rw [hpart.position]
        exact Nat.sub_le_sub_right hpart.limit _
      unfold Cursor.left at hshort
      rw [hpart.lengthToZero_eq (by unfold Cursor.left; omega) hleft hlength]
      simp only [← hpart.window_eq (show c.position + length ≤ c.limit by omega)]
      split at h
      · cases h
        exact ⟨_, rfl, hpart.advance _⟩
      · cases h
    · cases h

theorem steady_leb128 {α : Type} {decode : List UInt8 → Leb128.Ending α} {tooWide : Defect}
    (hdecode : ∀ {taken value used}, decode taken = .number value used →
      ∀ more, decode (taken ++ more) = .number value used) : Steady (leb128 decode tooWide) where
  again {c d next a} hpart h := by
    unfold leb128 at h ⊢
    split at h
    · rename_i value used hvalue
      cases h
      obtain ⟨more, hmore⟩ := hpart.window_prefix Leb128.maxBytes
      rw [hmore, hdecode hvalue more]
      exact ⟨_, rfl, hpart.advance used⟩
    · cases h
    · cases h

instance : Steady unsigned := steady_leb128 Leb128.unsignedFrom_append

instance : Steady signed := steady_leb128 Leb128.signedFrom_append

instance (size : Nat) : Steady (number size) := inferInstanceAs (Steady (bytes size >>= _))

instance : Steady half := inferInstanceAs (Steady (number 2 >>= _))

instance : Steady word := inferInstanceAs (Steady (number 4 >>= _))

instance : Steady long := inferInstanceAs (Steady (number 8 >>= _))

instance (size : UInt8) : Steady (sized size) := by
  unfold sized
  infer_instance

instance (size : UInt8) : Steady (address size) := by
  unfold address
  infer_instance

/-! ## Forms -/

instance : Steady indirectForm := by
  unfold indirectForm
  infer_instance

instance (offset : UInt64) : Steady (narrow offset) := by
  unfold narrow
  infer_instance

instance (size : Nat) : Steady (constant size) := by
  unfold constant
  infer_instance

end Read

namespace Form

variable (encoding : Encoding) (form : Form) (implicit : Option Int64)

instance (budget : Nat) : Steady (directFor budget form) := by
  induction budget generalizing form with
  | zero => exact inferInstanceAs (Steady (pure form))
  | succ budget ih =>
    cases form with
    | indirect => exact inferInstanceAs (Steady (Read.indirectForm >>= directFor budget))
    | _ => exact inferInstanceAs (Steady (pure _))

instance : Steady form.direct where
  again {c d next last} hpart h := by
    have hleft : c.left ≤ d.left := by
      unfold Cursor.left
      rw [hpart.position]
      exact Nat.sub_le_sub_right hpart.limit _
    unfold direct at h ⊢
    -- The budgets differ, but each is larger than what may be read with it.
    rw [directFor_eq form (Nat.lt_succ_self c.left) (Nat.lt_succ_of_le hleft)] at h
    exact Steady.again hpart h

instance : Steady (readDirect encoding implicit form) := by
  unfold readDirect
  split <;> infer_instance

instance : Steady (skipDirect encoding form) := by
  unfold skipDirect
  split
  · infer_instance
  · split <;> infer_instance

instance : Steady (form.read encoding implicit) := by
  unfold Form.read
  infer_instance

instance : Steady (form.skip encoding) := by
  unfold Form.skip
  infer_instance

end Form

end FirmwareDebug
