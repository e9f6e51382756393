import FirmwareDebug.Proofs.Form
import FirmwareDebug.Proofs.GroupedNumber

/-!
# Reads that can be moved

What a read has taken is all that it looks at, and it does not matter where that stands: the same bytes in another
place of any section give the same value again. This is found by instances.
-/

namespace FirmwareDebug

open Read

/-- A read that gives its value again wherever the bytes stand that it has taken. -/
class Portable {α : Type} (read : Read α) : Prop where
  takes : Takes read (Yields read)

namespace Portable

variable {α β : Type} {read other : Read α}

instance pure (a : α) : Portable (pure a : Read α) := ⟨.pure (.pure a)⟩

instance throw (e : Fault) : Portable (throw e : Read α) := ⟨.throw e⟩

instance malformed (defect : Defect) : Portable (Read.malformed defect : Read α) := ⟨.malformed defect⟩

instance bind {f : α → Read β} [hread : Portable read] [hf : ∀ a, Portable (f a)] : Portable (read >>= f) :=
  ⟨hread.takes.bind fun _ a ha => (hf a).takes.mono fun _ _ hb => ha.bind hb⟩

instance map {f : α → β} [Portable read] : Portable (f <$> read) := by
  rw [← bind_pure_comp]
  infer_instance

instance discard [Portable read] : Portable (discard read) := by
  rw [discard_eq]
  infer_instance

instance ite {p : Prop} [Decidable p] [Portable read] [Portable other] : Portable (if p then read else other) := by
  split <;> assumption

end Portable

/-- One run that takes all bytes there are tells what every run on these bytes gives. -/
theorem Read.yields_of_eval {α : Type} {read : Read α} [h : Portable read] {taken : List UInt8} {a : α}
    (heval : ((do let a ← read; return (a, ← Read.atEnd) : Read (α × Bool)).eval (.place "" taken.toArray 0)).toOption =
      some (a, true)) : Yields read taken a := by
  obtain ⟨next, hrun⟩ := eval_eq_ok_iff.mp (ok_of_toOption heval)
  simp only [Read.atEnd, run_bind_eq_ok_iff, run_get_eq_ok_iff, run_pure_eq_ok_iff, Prod.mk.injEq] at hrun
  obtain ⟨_, middle, hread, _, _, ⟨_, _, ⟨rfl, rfl⟩, hlast, rfl⟩, ⟨rfl, rfl⟩, rfl⟩ := hrun
  obtain ⟨hahead, hyields⟩ := h.takes _ _ _ hread
  have hall : (Cursor.place "" taken.toArray 0).upTo middle = taken := by
    have hposition : taken.length ≤ middle.position := by
      have hlimit := hahead.limit_eq
      simp only [Cursor.atEnd, decide_eq_true_eq, Cursor.place, List.size_toArray] at hlast hlimit
      omega
    simp [Cursor.upTo, Cursor.place, List.take_of_length_le hposition]
  rwa [hall] at hyields

namespace Read

variable {c next : Cursor}

/-! ## Bytes and numbers -/

instance : Portable byte where
  takes := takes_byte.mono fun taken b h => by
    rw [h]
    exact yields_byte b

instance (length : Nat) : Portable (bytes length) where
  takes := (takes_bytes length).mono fun taken value h => by
    obtain ⟨rfl, rfl⟩ := h
    exact yields_bytes taken

instance (length : Nat) : Portable (skip length) := by
  rw [← discard_bytes]
  infer_instance

theorem yields_of_isUnsigned {taken : List UInt8} {value : UInt64} (h : IsUnsigned taken value) :
    Yields unsigned taken value := by
  obtain ⟨n, hgroups, hlength, hvalue⟩ :=
    Leb128.groups_of_unsignedFrom (by omega) (by simp) (h.trans (by rw [Nat.zero_add]))
  obtain rfl : value.toNat = n := by simpa using hvalue
  have hyields := yields_unsigned hgroups (by omega) value.toNat_lt
  rwa [UInt64.ofNat_toNat] at hyields

instance : Portable unsigned := ⟨takes_unsigned.mono fun _ _ => yields_of_isUnsigned⟩

instance : Portable signed where
  takes c value next h := by
    obtain ⟨n, hgroups, hlength, rfl⟩ := groups_of_signed h
    exact ⟨(takes_signed c _ next h).1, yields_signed hgroups hlength⟩

theorem run_text {front rest : List UInt8} (hc : c.Holds (front ++ 0 :: rest)) (hfront : 0 ∉ front) :
    text c = match Text.decodeUtf8? front with
      | some s => .ok s (c.advance (front.length + 1))
      | none => .error (c.fault .textNotUtf8) c := by
  have hleft : front.length < 0 + c.left := by
    have hall := hc.left_eq
    rw [List.length_append, List.length_cons] at hall
    unfold Cursor.left
    omega
  unfold text
  rw [hc.lengthToZero_eq hfront (Nat.zero_le _) hleft]
  cases hdecoded : Text.decodeUtf8? front with
  | none => simp only [hc.window_eq, List.take_left, hdecoded]
  | some s => simp only [hc.window_eq, List.take_left, hdecoded]

instance : Portable text where
  takes c s next h := by
    obtain ⟨hahead, front, hfront, htaken⟩ := takes_text c s next h
    refine ⟨hahead, fun d rest hd => ?_⟩
    obtain ⟨hc, -⟩ := hahead.holds (by simp [htaken])
    rw [htaken, List.append_assoc, List.singleton_append] at hc hd
    rw [run_text hc hfront] at h
    rw [run_text hd hfront, htaken, List.length_append, List.length_singleton]
    split at h
    · cases h
      rfl
    · cases h

instance (size : Nat) : Portable (number size) := inferInstanceAs (Portable (bytes size >>= _))

instance : Portable half := inferInstanceAs (Portable (number 2 >>= _))

instance : Portable word := inferInstanceAs (Portable (number 4 >>= _))

instance : Portable long := inferInstanceAs (Portable (number 8 >>= _))

instance (size : UInt8) : Portable (sized size) := by
  unfold sized
  infer_instance

instance (size : UInt8) : Portable (address size) := by
  unfold address
  infer_instance

/-! ## Forms -/

instance : Portable indirectForm := by
  unfold indirectForm
  infer_instance

instance (offset : UInt64) : Portable (narrow offset) := by
  unfold narrow
  infer_instance

instance (size : Nat) : Portable (constant size) := by
  unfold constant
  infer_instance

end Read

namespace Form

variable (encoding : Encoding) (form : Form) (implicit : Option Int64)

theorem direct_indirect : Form.indirect.direct = indirectForm >>= direct := by
  funext c
  rw [run_direct_indirect, run_bind]
  cases indirectForm c <;> rfl

theorem takes_direct : Takes form.direct (Yields form.direct) := by
  intro c
  -- on what is left: the place bounds how far a chain may go, but does not decide where it ends
  induction hleft : c.left using Nat.strong_induction_on generalizing form c with
  | _ left ih =>
    intro last next h
    by_cases hform : form = .indirect
    · rw [hform, direct_indirect] at h ⊢
      obtain ⟨named, middle, hnamed, h⟩ := ran_of_bind h
      obtain ⟨code, hcode, -⟩ := indirectForm_eq_ok.mp hnamed
      have hindirect : Portable indirectForm := inferInstance
      obtain ⟨hmiddle, hfront⟩ := hindirect.takes c named middle hnamed
      obtain ⟨hnext, hback⟩ := ih middle.left (hleft ▸ (left_lt_of_unsigned hcode).2) named middle rfl last next h
      rw [← hmiddle.upTo_append hnext]
      exact ⟨hmiddle.trans hnext, hfront.bind hback⟩
    · rw [direct_of_ne hform] at h ⊢
      exact Takes.pure (.pure form) c last next h

instance : Portable form.direct := ⟨takes_direct form⟩

instance : Portable (readDirect encoding implicit form) := by
  unfold readDirect
  split <;> infer_instance

instance : Portable (form.read encoding implicit) := by
  unfold Form.read
  infer_instance

end Form

end FirmwareDebug
