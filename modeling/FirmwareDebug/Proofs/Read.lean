import FirmwareDebug.Leb128
import FirmwareDebug.Proofs.Keeps

/-!
# What reads do to their cursor

A read that succeeds has moved its cursor forward and left it inside the limit. `Takes` says so
together with what is known of the bytes that were passed over and of the value; `Gives` is about
the value alone.
-/

namespace FirmwareDebug

/-- The same place, or one further on up to the limit. -/
def Cursor.Ahead (c next : Cursor) : Prop :=
  ∃ count, next = c.advance count ∧ (count = 0 ∨ c.position + count ≤ c.limit)

/-- The bytes from one cursor up to another. -/
def Cursor.upTo (c next : Cursor) : List UInt8 := (c.bytes.extract c.position next.position).toList

namespace Cursor.Ahead

theorem refl (c : Cursor) : c.Ahead c := ⟨0, rfl, .inl rfl⟩

theorem trans {a b c : Cursor} (hab : a.Ahead b) (hbc : b.Ahead c) : a.Ahead c := by
  obtain ⟨m, rfl, hm⟩ := hab
  obtain ⟨n, rfl, hn⟩ := hbc
  refine ⟨m + n, ?_, ?_⟩
  · simp only [advance, Nat.add_assoc]
  · simp only [advance] at hn
    omega

theorem bytes_eq {a b : Cursor} (h : a.Ahead b) : b.bytes = a.bytes := by
  obtain ⟨n, rfl, -⟩ := h
  rfl

theorem limit_eq {a b : Cursor} (h : a.Ahead b) : b.limit = a.limit := by
  obtain ⟨n, rfl, -⟩ := h
  rfl

theorem position_le {a b : Cursor} (h : a.Ahead b) : a.position ≤ b.position := by
  obtain ⟨n, rfl, -⟩ := h
  simp only [advance]
  omega

theorem le_limit {a b : Cursor} (h : a.Ahead b) (ha : a.position ≤ a.limit) :
    b.position ≤ b.limit := by
  obtain ⟨n, rfl, hn⟩ := h
  simp only [advance]
  omega

theorem upTo_append {a b c : Cursor} (hab : a.Ahead b) (hbc : b.Ahead c) :
    a.upTo b ++ b.upTo c = a.upTo c := by
  have hab' := hab.position_le
  have hbc' := hbc.position_le
  unfold upTo
  rw [hab.bytes_eq, ← Array.toList_append, Array.extract_append_extract, Nat.min_eq_left hab',
    Nat.max_eq_right hbc']

theorem upTo_append_rest {a b : Cursor} (h : a.Ahead b) (hlimit : b.position ≤ b.limit) :
    a.upTo b ++ b.rest.toList = a.rest.toList := by
  have hposition := h.position_le
  rw [h.limit_eq] at hlimit
  unfold upTo rest
  rw [h.bytes_eq, h.limit_eq, ← Array.toList_append, Array.extract_append_extract, Nat.min_eq_left hposition,
    Nat.max_eq_right hlimit]

theorem length_upTo {a b : Cursor} (h : a.Ahead b) : (a.upTo b).length = b.position - a.position := by
  obtain ⟨n, rfl, hn⟩ := h
  have hlimit := a.limit_le
  simp only [upTo, advance, Array.length_toList, Array.size_extract]
  omega

end Cursor.Ahead

@[simp]
theorem Cursor.upTo_self (c : Cursor) : c.upTo c = [] := by
  simp [upTo]

theorem Cursor.ahead_advance {c : Cursor} {count : Nat} (h : c.position + count ≤ c.limit) :
    c.Ahead (c.advance count) := ⟨count, rfl, .inr h⟩

theorem Cursor.upTo_advance {c : Cursor} {count : Nat} (h : c.position + count ≤ c.limit) :
    c.upTo (c.advance count) = (c.window count).toList := by
  unfold upTo window advance
  rw [Nat.min_eq_right h]

theorem Cursor.length_window {c : Cursor} {count : Nat} (h : c.position + count ≤ c.limit) :
    (c.window count).toList.length = count := by
  have := c.limit_le
  simp only [window, Array.length_toList, Array.size_extract]
  omega

theorem Cursor.eq_of_truncated? {c inner : Cursor} {length : Nat} (h : c.truncated? length = some inner) :
    inner.region = c.region ∧ inner.bytes = c.bytes ∧ inner.position = c.position ∧
      inner.limit = c.position + length ∧ c.position + length ≤ c.limit := by
  unfold truncated? at h
  split at h
  · rename_i hfits
    cases h
    exact ⟨rfl, rfl, rfl, rfl, hfits⟩
  · cases h

namespace Read

variable {α β : Type}

/-- Whenever the read succeeds it stays inside the limit, and bytes passed and value fit. -/
def Takes (read : Read α) (P : List UInt8 → α → Prop) : Prop :=
  ∀ c a next, read c = .ok a next → c.Ahead next ∧ P (c.upTo next) a

namespace Takes

theorem mono {read : Read α} {P Q : List UInt8 → α → Prop} (h : Takes read P)
    (hPQ : ∀ taken a, P taken a → Q taken a) : Takes read Q := fun c a next hread =>
  ⟨(h c a next hread).1, hPQ _ a (h c a next hread).2⟩

theorem pure {P : List UInt8 → α → Prop} {a : α} (h : P [] a) : Takes (pure a) P := by
  intro c a' next hread
  cases hread
  rw [c.upTo_self]
  exact ⟨.refl c, h⟩

theorem throw {P : List UInt8 → α → Prop} (e : Fault) : Takes (throw e) P := by
  intro c a next hread
  cases hread

theorem malformed {P : List UInt8 → α → Prop} (defect : Defect) : Takes (malformed defect) P := by
  intro c a next hread
  cases hread

theorem get {P : List UInt8 → Cursor → Prop} (h : ∀ c, P [] c) : Takes get P := by
  intro c a next hread
  cases hread
  rw [c.upTo_self]
  exact ⟨.refl c, h c⟩

theorem liftExcept {P : List UInt8 → α → Prop} {x : Except Fault α} (h : ∀ a, x = .ok a → P [] a) :
    Takes (liftExcept x) P := by
  cases x with
  | error e => exact throw e
  | ok a => exact pure (h a rfl)

theorem bind {read : Read α} {f : α → Read β} {P : List UInt8 → α → Prop} {Q : List UInt8 → β → Prop}
    (h : Takes read P) (hf : ∀ front a, P front a → Takes (f a) fun back b => Q (front ++ back) b) :
    Takes (read >>= f) Q := by
  intro c b last hread
  rw [run_bind] at hread
  cases hfirst : read c with
  | error e next =>
    rw [hfirst] at hread
    cases hread
  | ok a next =>
    rw [hfirst] at hread
    obtain ⟨hnext, ha⟩ := h c a next hfirst
    obtain ⟨hlast, hb⟩ := hf _ a ha next b last hread
    rw [hnext.upTo_append hlast] at hb
    exact ⟨hnext.trans hlast, hb⟩

theorem ite {P : List UInt8 → α → Prop} {p : Prop} [Decidable p] {a b : Read α} (ha : p → Takes a P)
    (hb : ¬ p → Takes b P) : Takes (if p then a else b) P := by
  split
  · exact ha ‹_›
  · exact hb ‹_›

theorem discard {read : Read α} {P : List UInt8 → α → Prop} {Q : List UInt8 → Prop} (h : Takes read P)
    (hPQ : ∀ taken a, P taken a → Q taken) : Takes (discard read) fun taken _ => Q taken := by
  rw [discard_eq]
  refine h.bind fun front a ha => .pure ?_
  rw [List.append_nil]
  exact hPQ front a ha

end Takes

/-- Whenever the read succeeds it stays inside the limit and its value has the property. -/
def Gives (read : Read α) (P : α → Prop) : Prop := Takes read fun _ => P

theorem Takes.gives {read : Read α} {P : List UInt8 → α → Prop} {Q : α → Prop} (h : Takes read P)
    (hPQ : ∀ taken a, P taken a → Q a) : Gives read Q := h.mono hPQ

namespace Gives

theorem pure {P : α → Prop} {a : α} (h : P a) : Gives (pure a) P := Takes.pure h

theorem throw {P : α → Prop} (e : Fault) : Gives (throw e) P := Takes.throw e

theorem malformed {P : α → Prop} (defect : Defect) : Gives (malformed defect) P := Takes.malformed defect

theorem get : Gives get fun _ => True := Takes.get fun _ => trivial

theorem bind {read : Read α} {f : α → Read β} {P : α → Prop} {Q : β → Prop}
    (h : Gives read P) (hf : ∀ a, P a → Gives (f a) Q) : Gives (read >>= f) Q :=
  Takes.bind h fun _ a => hf a

theorem ite {P : α → Prop} {p : Prop} [Decidable p] {a b : Read α} (ha : p → Gives a P)
    (hb : ¬ p → Gives b P) : Gives (if p then a else b) P := by
  split
  · exact ha ‹_›
  · exact hb ‹_›

end Gives

/-! ## Single reads that succeed -/

section

variable {c next : Cursor} {length : Nat}

@[simp]
theorem run_position_eq_ok_iff {place : Nat} : position c = .ok place next ↔ place = c.position ∧ next = c := by
  simp only [position, run_bind_eq_ok_iff, run_get_eq_ok_iff, run_pure_eq_ok_iff]
  grind

@[simp]
theorem run_seek_eq_ok_iff {place : Nat} {u : Unit} :
    seek place c = .ok u next ↔ next = { c with position := place } :=
  (iff_of_eq (EStateM.Result.ok.injEq ..)).trans (by simp [eq_comm])

@[simp]
theorem run_byte_eq_ok_iff {b : UInt8} : byte c = .ok b next ↔
    c.position < c.limit ∧ c.bytes[c.position]? = some b ∧ next = c.advance 1 := by
  have hlimit := c.limit_le
  unfold byte
  split
  case isTrue hposition =>
    rw [Array.getElem?_eq_getElem (by omega)]
    simp [hposition, eq_comm]
  case isFalse hposition => simp [hposition]

@[simp]
theorem run_bytes_eq_ok_iff {value : List UInt8} : bytes length c = .ok value next ↔
    c.position + length ≤ c.limit ∧ value = (c.window length).toList ∧ next = c.advance length := by
  unfold bytes
  split <;> simp [*, eq_comm]

@[simp]
theorem run_skip_eq_ok_iff {u : Unit} : skip length c = .ok u next ↔
    c.position + length ≤ c.limit ∧ next = c.advance length := by
  unfold skip
  split <;> simp [*, eq_comm]

@[simp]
theorem run_within_eq_ok_iff {inner : Cursor} :
    within length c = .ok inner next ↔ next = c ∧ c.truncated? length = some inner := by
  unfold within
  cases c.truncated? length <;> simp [eq_comm, and_comm]

@[simp]
theorem eval_eq_ok_iff {read : Read α} {a : α} : read.eval c = .ok a ↔ ∃ next, read c = .ok a next := by
  unfold eval
  split <;> simp [*]

/-- A rule of the encoding that is checked in front of the rest is kept. -/
@[simp]
theorem run_check_eq_ok_iff {p : Prop} [Decidable p] {defect : Defect} {k : β → Read α} {read : Read α} {a : α} :
    (if p then malformed defect >>= k else read) c = .ok a next ↔ ¬ p ∧ read c = .ok a next := by
  by_cases hp : p <;> simp [hp, malformed]

end

/-! ## Reads of a fixed length -/

theorem takes_byte : Takes byte fun taken b => taken = [b] := by
  intro c b next hread
  obtain ⟨hposition, hbyte, rfl⟩ := run_byte_eq_ok_iff.mp hread
  obtain ⟨hinside, rfl⟩ := Array.getElem?_eq_some_iff.mp hbyte
  have hnext : c.position + 1 ≤ c.limit := hposition
  have hwindow : (c.window 1).toList = [c.bytes[c.position]] := by
    unfold Cursor.window
    rw [Nat.min_eq_right hnext, Array.toList_extract, List.extract_eq_take_drop, Nat.add_sub_cancel_left,
      List.drop_eq_getElem_cons (by rwa [Array.length_toList])]
    rfl
  exact ⟨c.ahead_advance hnext, (c.upTo_advance hnext).trans hwindow⟩

theorem takes_bytes (length : Nat) :
    Takes (bytes length) fun taken value => taken = value ∧ value.length = length := by
  intro c value next hread
  obtain ⟨hposition, rfl, rfl⟩ := run_bytes_eq_ok_iff.mp hread
  exact ⟨c.ahead_advance hposition, c.upTo_advance hposition, c.length_window hposition⟩

theorem takes_skip (length : Nat) : Takes (skip length) fun taken _ => taken.length = length := by
  intro c _ next hread
  obtain ⟨hposition, rfl⟩ := run_skip_eq_ok_iff.mp hread
  have hlength := c.length_window hposition
  rw [← c.upTo_advance hposition] at hlength
  exact ⟨c.ahead_advance hposition, hlength⟩

theorem takes_number (size : Nat) :
    Takes (number size) fun taken n => taken.length = size ∧ n = littleEndian taken := by
  refine (takes_bytes size).bind fun taken value h => .pure ?_
  obtain ⟨rfl, hlength⟩ := h
  rw [List.append_nil]
  exact ⟨hlength, rfl⟩

theorem takes_map {read : Read α} {P : List UInt8 → α → Prop} (h : Takes read P) (f : α → β) :
    Takes (do return f (← read)) fun taken b => ∃ a, P taken a ∧ b = f a := by
  refine h.bind fun front a ha => .pure ?_
  rw [List.append_nil]
  exact ⟨a, ha, rfl⟩

theorem takes_half :
    Takes half fun taken n => taken.length = 2 ∧ n = UInt16.ofNat (littleEndian taken) := by
  refine (takes_map (takes_number 2) _).mono fun taken n h => ?_
  obtain ⟨_, ⟨hlength, rfl⟩, rfl⟩ := h
  exact ⟨hlength, rfl⟩

theorem takes_word :
    Takes word fun taken n => taken.length = 4 ∧ n = UInt32.ofNat (littleEndian taken) := by
  refine (takes_map (takes_number 4) _).mono fun taken n h => ?_
  obtain ⟨_, ⟨hlength, rfl⟩, rfl⟩ := h
  exact ⟨hlength, rfl⟩

theorem position_lt_of_byte {f : UInt8 → Read α} {P : α → Prop} (hf : ∀ b, Gives (f b) P) {c next : Cursor}
    {a : α} (h : (byte >>= f) c = .ok a next) : c.position < next.position := by
  obtain ⟨b, middle, hbyte, h⟩ := run_bind_eq_ok_iff.mp h
  obtain ⟨-, -, rfl⟩ := run_byte_eq_ok_iff.mp hbyte
  exact (hf b _ _ _ h).1.position_le

theorem gives_byte : Gives byte fun _ => True := takes_byte.gives fun _ _ _ => trivial

theorem gives_bytes (length : Nat) : Gives (bytes length) fun _ => True :=
  (takes_bytes length).gives fun _ _ _ => trivial

theorem gives_map {read : Read α} (h : Gives read fun _ => True) (f : α → β) :
    Gives (do return f (← read)) fun _ => True :=
  h.bind fun _ _ => .pure trivial

theorem gives_discard {read : Read α} (h : Gives read fun _ => True) :
    Gives (discard read) fun _ => True := Takes.discard h fun _ _ _ => trivial

theorem gives_number (size : Nat) : Gives (number size) fun _ => True :=
  gives_map (gives_bytes size) _

theorem gives_signedByte : Gives signedByte fun _ => True := gives_map gives_byte _

theorem gives_half : Gives half fun _ => True := gives_map (gives_number 2) _

theorem gives_signedHalf : Gives signedHalf fun _ => True := gives_map gives_half _

theorem gives_word : Gives word fun _ => True := gives_map (gives_number 4) _

theorem gives_long : Gives long fun _ => True := gives_map (gives_number 8) _

/-! ## Numbers in groups of seven bits -/

/-- The bytes write an unsigned number, and no byte is left. -/
def IsUnsigned (bytes : List UInt8) (value : UInt64) : Prop :=
  Leb128.unsignedFrom 0 0 0 bytes = .number value bytes.length

/-- The bytes write a signed number, and no byte is left. -/
def IsSigned (bytes : List UInt8) (value : Int64) : Prop :=
  Leb128.signedFrom 0 0 0 bytes = .number value bytes.length

theorem ne_nil_of_isUnsigned {bytes : List UInt8} {value : UInt64} (h : IsUnsigned bytes value) :
    bytes ≠ [] := by
  rintro rfl
  cases h

theorem unsignedFrom_used {bytes : List UInt8} {shift used end_ : Nat} {value result : UInt64}
    (h : Leb128.unsignedFrom shift used value bytes = .number result end_) :
    (used < end_ ∧ end_ ≤ used + bytes.length) ∧
      Leb128.unsignedFrom shift used value (bytes.take (end_ - used)) = .number result end_ := by
  induction bytes generalizing shift used value with
  | nil => cases h
  | cons b rest ih =>
    simp only [Leb128.unsignedFrom] at h
    split at h
    · cases h
    · rename_i hfits
      split at h
      · rename_i hcontinues
        obtain ⟨hused, htake⟩ := ih h
        refine ⟨by simp only [List.length_cons]; omega, ?_⟩
        rw [show end_ - used = end_ - (used + 1) + 1 by omega, List.take_succ_cons]
        simp only [Leb128.unsignedFrom]
        rw [if_neg hfits, if_pos hcontinues, htake]
      · rename_i hlast
        cases h
        refine ⟨by simp only [List.length_cons]; omega, ?_⟩
        rw [Nat.add_sub_cancel_left, List.take_succ_cons]
        simp only [Leb128.unsignedFrom]
        rw [if_neg hfits, if_neg hlast]

theorem signedFrom_used {bytes : List UInt8} {shift used end_ : Nat} {value : UInt64} {result : Int64}
    (h : Leb128.signedFrom shift used value bytes = .number result end_) :
    (used < end_ ∧ end_ ≤ used + bytes.length) ∧
      Leb128.signedFrom shift used value (bytes.take (end_ - used)) = .number result end_ := by
  induction bytes generalizing shift used value with
  | nil => cases h
  | cons b rest ih =>
    simp only [Leb128.signedFrom] at h
    split at h
    · cases h
    · rename_i hfits
      split at h
      · rename_i hcontinues
        obtain ⟨hused, htake⟩ := ih h
        refine ⟨by simp only [List.length_cons]; omega, ?_⟩
        rw [show end_ - used = end_ - (used + 1) + 1 by omega, List.take_succ_cons]
        simp only [Leb128.signedFrom]
        rw [if_neg hfits, if_pos hcontinues, htake]
      · rename_i hlast
        split at h
        · rename_i hsign
          cases h
          refine ⟨by simp only [List.length_cons]; omega, ?_⟩
          rw [Nat.add_sub_cancel_left, List.take_succ_cons]
          simp only [Leb128.signedFrom]
          rw [if_neg hfits, if_neg hlast, if_pos hsign]
        · rename_i hsign
          cases h
          refine ⟨by simp only [List.length_cons]; omega, ?_⟩
          rw [Nat.add_sub_cancel_left, List.take_succ_cons]
          simp only [Leb128.signedFrom]
          rw [if_neg hfits, if_neg hlast, if_neg hsign]

theorem length_window_le (c : Cursor) (count : Nat) :
    (c.window count).toList.length ≤ c.limit - c.position := by
  have := c.limit_le
  simp only [Cursor.window, Array.length_toList, Array.size_extract]
  omega

theorem take_window {c : Cursor} {count : Nat} (most : Nat) (hcount : count ≤ most)
    (h : c.position + count ≤ c.limit) :
    (c.window most).toList.take count = (c.window count).toList := by
  unfold Cursor.window
  rw [Array.toList_extract, Array.toList_extract, List.extract_eq_take_drop, List.extract_eq_take_drop,
    List.take_take]
  congr 1
  omega

theorem takes_leb128 {decode : List UInt8 → Leb128.Ending α} {tooWide : Defect}
    (h : ∀ {bytes value used}, decode bytes = .number value used →
      (0 < used ∧ used ≤ 0 + bytes.length) ∧ decode (bytes.take (used - 0)) = .number value used) :
    Takes (leb128 decode tooWide) fun taken value => decode taken = .number value taken.length := by
  intro c a next hread
  unfold leb128 at hread
  split at hread
  · rename_i value used hdecode
    cases hread
    obtain ⟨hused, htake⟩ := h hdecode
    have hwindow := length_window_le c Leb128.maxBytes
    have hposition : c.position + used ≤ c.limit := by omega
    have hmost : used ≤ Leb128.maxBytes := by
      simp only [Cursor.window, Array.length_toList, Array.size_extract] at hused
      omega
    have hupTo := c.upTo_advance hposition
    have hlength := c.length_window hposition
    rw [Nat.sub_zero, take_window _ hmost hposition] at htake
    rw [← hupTo] at htake hlength
    refine ⟨c.ahead_advance hposition, ?_⟩
    simp only [htake, hlength]
  · cases hread
  · cases hread

theorem takes_unsigned : Takes unsigned IsUnsigned := takes_leb128 unsignedFrom_used

theorem takes_signed : Takes signed IsSigned := takes_leb128 signedFrom_used

theorem gives_unsigned : Gives unsigned fun _ => True := takes_unsigned.gives fun _ _ _ => trivial

theorem gives_signed : Gives signed fun _ => True := takes_signed.gives fun _ _ _ => trivial

theorem gives_unsigned32 : Gives unsigned32 fun _ => True :=
  .bind .get fun _ _ => gives_unsigned.bind fun _ _ =>
    .ite (fun _ => .pure trivial) fun _ => .throw _

theorem gives_signed32 : Gives signed32 fun _ => True :=
  .bind .get fun _ _ => gives_signed.bind fun _ _ =>
    .ite (fun _ => .pure trivial) fun _ => .throw _

/-! ## Text and repeated reads -/

theorem lengthToZero_spec {c : Cursor} {left count length : Nat}
    (h : c.lengthToZero left count = some length) :
    length < count + left ∧ c.bytes[c.position + length]? = some 0 ∧
      ∀ i, count ≤ i → i < length → c.bytes[c.position + i]? ≠ some 0 := by
  induction left generalizing count with
  | zero => cases h
  | succ left ih =>
    unfold Cursor.lengthToZero at h
    split at h
    · rename_i hzero
      cases h
      refine ⟨by omega, hzero, fun i _ _ => by omega⟩
    · rename_i hother
      obtain ⟨hlength, hzero, hbefore⟩ := ih h
      refine ⟨by omega, hzero, fun i hi hlast => ?_⟩
      rcases Nat.eq_or_lt_of_le hi with rfl | hlt
      · exact hother
      · exact hbefore i hlt hlast

theorem takes_text : Takes text fun taken _ => ∃ front, 0 ∉ front ∧ taken = front ++ [0] := by
  intro c value next hread
  unfold text at hread
  split at hread
  · rename_i length hlength
    obtain ⟨hleft, hzero, hbefore⟩ := lengthToZero_spec hlength
    unfold Cursor.left at hleft
    have hposition : c.position + (length + 1) ≤ c.limit := by omega
    have hlimit := c.limit_le
    split at hread
    · cases hread
      refine ⟨c.ahead_advance hposition, (c.window length).toList, fun hmem => ?_, ?_⟩
      · obtain ⟨i, hi, heq⟩ := List.mem_iff_getElem.mp hmem
        rw [c.length_window (by omega)] at hi
        refine hbefore i (Nat.zero_le i) hi ?_
        rw [Array.getElem?_eq_getElem (by omega), ← heq]
        simp only [Cursor.window, Array.getElem_toList, Array.getElem_extract]
      · rw [c.upTo_advance hposition]
        unfold Cursor.window
        rw [Nat.min_eq_right hposition, Nat.min_eq_right (by omega), ← Nat.add_assoc,
          Array.extract_succ_right (by omega) (by omega), Array.toList_push]
        rw [Array.getElem?_eq_getElem (by omega), Option.some.injEq] at hzero
        rw [hzero]
    · cases hread
  · cases hread

theorem gives_repeatFor {step : Read (Option α)} (h : Gives step fun _ => True) (budget : Nat) :
    Gives (repeatFor step budget) fun _ => True := by
  induction budget with
  | zero => exact Gives.get.bind fun _ _ => .throw _
  | succ budget ih =>
    refine h.bind fun found _ => ?_
    cases found with
    | none => exact .pure trivial
    | some a => exact ih.bind fun _ _ => .pure trivial

theorem gives_untilNone {step : Read (Option α)} (h : Gives step fun _ => True) :
    Gives (untilNone step) fun _ => True := fun c => gives_repeatFor h (c.left + 1) c

end Read

/-! ## Steps to the end -/

/-- The items that steps give, one behind the other, up to the end of the cursor. -/
inductive Steps {α : Type} (step : Read α) : Cursor → List α → Prop
  | done {c : Cursor} (hend : c.limit ≤ c.position) : Steps step c []
  | next {c after : Cursor} {a : α} {rest : List α} (hmore : c.position < c.limit)
      (hstep : step c = .ok a after) (hrest : Steps step after rest) : Steps step c (a :: rest)

theorem all_cons {α : Type} {a : α} {d : Decoded α} {items : List α} (h : (d.cons a).all = .ok items) :
    ∃ rest, d.all = .ok rest ∧ items = a :: rest := by
  obtain ⟨rest, fault⟩ := d
  cases fault with
  | none =>
    cases h
    exact ⟨rest, rfl, rfl⟩
  | some e => cases h

theorem steps_of_collect {α : Type} {step : Read α} {c : Cursor} {items : List α} {budget : Nat}
    (hstep : ∀ c a after, step c = .ok a after → after.limit = c.limit ∧ c.position < after.position)
    (hbudget : c.left ≤ budget) (h : (Decoded.collect step budget c).all = .ok items) :
    Steps step c items := by
  unfold Cursor.left at hbudget
  induction budget generalizing c items with
  | zero =>
    cases h
    exact .done (by omega)
  | succ budget ih =>
    unfold Decoded.collect at h
    split at h
    · rename_i hend
      cases h
      exact .done (of_decide_eq_true hend)
    · rename_i hmore
      simp only [Cursor.atEnd, decide_eq_true_eq, Nat.not_le] at hmore
      split at h
      · rename_i a after hread
        obtain ⟨rest, hrest, rfl⟩ := all_cons h
        obtain ⟨hlimit, hposition⟩ := hstep c a after hread
        exact .next hmore hread (ih (by omega) hrest)
      · cases h

theorem steps_of_ofCursor {α : Type} {step : Read α} {c : Cursor} {items : List α}
    (hstep : ∀ c a after, step c = .ok a after → after.limit = c.limit ∧ c.position < after.position)
    (h : (Decoded.ofCursor step c).all = .ok items) : Steps step c items :=
  steps_of_collect hstep (Nat.le_refl _) h

end FirmwareDebug
