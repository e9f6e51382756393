import FirmwareDebug.Proofs.Leb128
import FirmwareDebug.Proofs.LittleEndian
import FirmwareDebug.Proofs.Read

/-!
# Reading what was written

A read gives back the value whose bytes stand at its cursor, whatever comes behind them. `Yields`
says so of one read and composes along `do`, as does `Reads` for reads that tell places in 64 bits; a
list of items is read back one by one.
-/

namespace FirmwareDebug

@[simp]
theorem Cursor.advance_advance (c : Cursor) (m n : Nat) : (c.advance m).advance n = c.advance (m + n) := by
  simp only [advance, Nat.add_assoc]

/-- The bytes are all that is left in front of the limit. -/
structure Cursor.Holds (c : Cursor) (bytes : List UInt8) : Prop where
  position_le : c.position ≤ c.limit
  rest_eq : c.rest.toList = bytes

namespace Cursor.Holds

variable {c : Cursor} {bytes front back : List UInt8}

theorem left_eq (h : c.Holds bytes) : c.limit = c.position + bytes.length := by
  have hlimit := c.limit_le
  have hposition := h.position_le
  rw [← h.rest_eq, Cursor.rest, Array.length_toList, Array.size_extract]
  omega

theorem bytes_eq (h : c.Holds bytes) : (c.bytes.toList.take c.limit).drop c.position = bytes := by
  rw [← h.rest_eq, Cursor.rest, Array.toList_extract, List.extract_eq_take_drop, List.drop_take]

theorem of_eq (hposition : c.position ≤ c.limit) (h : (c.bytes.toList.take c.limit).drop c.position = bytes) :
    c.Holds bytes := by
  refine ⟨hposition, ?_⟩
  rw [← h, Cursor.rest, Array.toList_extract, List.extract_eq_take_drop, List.drop_take]

theorem advance (h : c.Holds (front ++ back)) : (c.advance front.length).Holds back := by
  have hleft := h.left_eq
  rw [List.length_append] at hleft
  apply of_eq
  · simp only [Cursor.advance]
    omega
  · simp only [Cursor.advance]
    rw [← List.drop_drop, h.bytes_eq, List.drop_left]

theorem window_eq (h : c.Holds bytes) (count : Nat) : (c.window count).toList = bytes.take count := by
  rw [← h.bytes_eq, Cursor.window, Array.toList_extract, List.extract_eq_take_drop, List.drop_take,
    List.take_take]
  congr 1
  omega

theorem getElem?_eq (h : c.Holds bytes) {i : Nat} (hi : i < bytes.length) :
    c.bytes[c.position + i]? = bytes[i]? := by
  have hleft := h.left_eq
  have hlimit : c.position + i < c.limit := by omega
  have hbyte := congrArg (fun left => left[i]?) h.bytes_eq
  simpa [List.getElem?_drop, List.getElem?_take, hlimit] using hbyte

theorem place (region : String) (front bytes : List UInt8) :
    (Cursor.place region (front ++ bytes).toArray front.length).Holds bytes := by
  have hall : (front ++ bytes).take (front.length + bytes.length) = front ++ bytes :=
    List.take_of_length_le (by simp)
  apply of_eq
  · simp [Cursor.place]
  · simp [Cursor.place, hall]

theorem lengthToZero_eq (h : c.Holds (front ++ 0 :: back)) (hfront : 0 ∉ front) {left count : Nat}
    (hcount : count ≤ front.length) (hleft : front.length < count + left) :
    c.lengthToZero left count = some front.length := by
  induction left generalizing count with
  | zero => omega
  | succ left ih =>
    have hinside : count < (front ++ 0 :: back).length := by
      simp only [List.length_append, List.length_cons]
      omega
    rw [Cursor.lengthToZero, h.getElem?_eq hinside]
    rcases Nat.eq_or_lt_of_le hcount with rfl | hlt
    · simp
    · have hother : (front ++ 0 :: back)[count]? ≠ some 0 := by
        rw [List.getElem?_append_left hlt]
        intro hzero
        exact hfront (List.mem_of_getElem? hzero)
      rw [if_neg hother]
      exact ih hlt (by omega)

end Cursor.Holds

theorem wordBytes_ne_nil (n : UInt32) : wordBytes n ≠ [] := by
  simp [wordBytes, littleEndianBytes]

namespace Read

variable {α β : Type}

/-- The read takes exactly these bytes and gives the value. -/
def Yields (read : Read α) (bytes : List UInt8) (a : α) : Prop :=
  ∀ c rest, c.Holds (bytes ++ rest) → read c = .ok a (c.advance bytes.length)

/-- The read takes exactly these bytes and gives the value, where 64 bits can tell the place behind. -/
def Reads (read : Read α) (bytes : List UInt8) (a : α) : Prop :=
  ∀ c rest, c.Holds (bytes ++ rest) → c.position + bytes.length < 2 ^ 64 →
    read c = .ok a (c.advance bytes.length)

section

variable {read : Read α} {f : α → Read β} {front back bytes : List UInt8} {a : α} {b : β}

namespace Yields

theorem reads (h : Yields read bytes a) : Reads read bytes a := fun c rest hc _ => h c rest hc

theorem pure (a : α) : Yields (pure a) [] a := fun _ _ _ => rfl

theorem bind (h : Yields read front a) (hf : Yields (f a) back b) : Yields (read >>= f) (front ++ back) b := by
  intro c rest hc
  rw [List.append_assoc] at hc
  rw [FirmwareDebug.run_bind, h c _ hc]
  simp only [hf _ rest hc.advance, Cursor.advance_advance, List.length_append]

theorem bind_both {γ : Type} {next : Read β} {g : α → β → Read γ} {middle : List UInt8} {d : γ}
    (h : Yields read front a) (hnext : Yields next middle b) (hg : Yields (g a b) back d) :
    Yields (do let a ← read; let b ← next; g a b) (front ++ middle ++ back) d := by
  rw [List.append_assoc]
  exact h.bind (hnext.bind hg)

theorem bind_last (h : Yields read bytes a) (hf : Yields (f a) [] b) : Yields (read >>= f) bytes b := by
  have hread := h.bind hf
  rwa [List.append_nil] at hread

theorem map (h : Yields read bytes a) (f : α → β) : Yields (do return f (← read)) bytes (f a) :=
  h.bind_last (.pure (f a))

theorem discard (h : Yields read bytes a) : Yields (discard read) bytes ⟨⟩ := by
  rw [discard_eq]
  exact h.map _

theorem eval_eq (h : Yields read bytes a) (region : String) (front back : List UInt8) :
    read.eval (.place region (front ++ (bytes ++ back)).toArray front.length) = .ok a := by
  rw [eval, h _ back (.place region front (bytes ++ back))]

end Yields

namespace Reads

theorem pure (a : α) : Reads (pure a) [] a := fun _ _ _ _ => rfl

theorem run_bind (h : Reads read front a) {c : Cursor} {rest : List UInt8} (hc : c.Holds (front ++ rest))
    (hplace : c.position + front.length < 2 ^ 64) : (read >>= f) c = f a (c.advance front.length) := by
  rw [FirmwareDebug.run_bind, h c rest hc hplace]

theorem bind (h : Reads read front a) (hf : Reads (f a) back b) : Reads (read >>= f) (front ++ back) b := by
  intro c rest hc hplace
  rw [List.append_assoc] at hc
  rw [List.length_append] at hplace ⊢
  rw [h.run_bind hc (by omega), hf _ rest hc.advance (by simp only [Cursor.advance]; omega),
    Cursor.advance_advance]

theorem map (h : Reads read bytes a) (f : α → β) : Reads (do return f (← read)) bytes (f a) := by
  have hread := Reads.bind (f := fun a => Pure.pure (f a)) h (Reads.pure (f a))
  rwa [List.append_nil] at hread

theorem discard (h : Reads read bytes a) : Reads (discard read) bytes ⟨⟩ := by
  rw [discard_eq]
  exact h.map _

end Reads

end

/-- Behind these bytes the read goes on as another one. -/
def Leads (read : Read α) (bytes : List UInt8) (next : Read α) : Prop :=
  ∀ c rest, c.Holds (bytes ++ rest) → c.position + bytes.length < 2 ^ 64 →
    read c = next (c.advance bytes.length)

theorem Leads.trans {read next last : Read α} {front back : List UInt8} (h : Leads read front next)
    (hnext : Leads next back last) : Leads read (front ++ back) last := by
  intro c rest hc hplace
  rw [List.append_assoc] at hc
  rw [List.length_append] at hplace ⊢
  rw [h c _ hc (by omega), hnext _ rest hc.advance (by simp only [Cursor.advance]; omega),
    Cursor.advance_advance]

theorem Reads.leads {read : Read α} {f : α → Read β} {bytes : List UInt8} {a : α} (h : Reads read bytes a) :
    Leads (read >>= f) bytes (f a) := fun _ _ hc hplace => h.run_bind hc hplace

/-! ## Numbers -/

theorem yields_byte (b : UInt8) : Yields byte [b] b := by
  intro c rest hc
  have hlimit := hc.left_eq
  have hsize := c.limit_le
  simp only [List.length_append, List.length_singleton] at hlimit
  have hposition : c.position < c.limit := by omega
  have hbyte : c.bytes[c.position]? = some b := hc.getElem?_eq (i := 0) (by simp)
  unfold byte
  rw [dif_pos hposition]
  obtain ⟨hlt, rfl⟩ := Array.getElem?_eq_some_iff.mp hbyte
  rfl

theorem yields_bytes (taken : List UInt8) : Yields (bytes taken.length) taken taken := by
  intro c rest hc
  have hlimit := hc.left_eq
  rw [List.length_append] at hlimit
  unfold bytes
  rw [if_pos (by omega), hc.window_eq, List.take_left]

theorem yields_number {count n : Nat} (h : n < 256 ^ count) :
    Yields (number count) (littleEndianBytes count n) n := by
  have hread := (yields_bytes (littleEndianBytes count n)).map littleEndian
  rwa [length_littleEndianBytes, littleEndian_littleEndianBytes h] at hread

theorem yields_half (n : UInt16) : Yields half (littleEndianBytes 2 n.toNat) n := by
  have hnumber : Yields (number 2) (littleEndianBytes 2 n.toNat) n.toNat := yields_number n.toNat_lt
  have hread := hnumber.map UInt16.ofNat
  rwa [UInt16.ofNat_toNat] at hread

theorem yields_word (n : UInt32) : Yields word (wordBytes n) n := by
  have hnumber : Yields (number 4) (wordBytes n) n.toNat := yields_number n.toNat_lt
  have hread := hnumber.map UInt32.ofNat
  rwa [UInt32.ofNat_toNat] at hread

theorem reads_byte (b : UInt8) : Reads byte [b] b := (yields_byte b).reads

theorem reads_bytes (taken : List UInt8) : Reads (bytes taken.length) taken taken := (yields_bytes taken).reads

theorem reads_number {count n : Nat} (h : n < 256 ^ count) : Reads (number count) (littleEndianBytes count n) n :=
  (yields_number h).reads

theorem reads_half (n : UInt16) : Reads half (littleEndianBytes 2 n.toNat) n := (yields_half n).reads

theorem reads_word (n : UInt32) : Reads word (wordBytes n) n := (yields_word n).reads

open Leb128

theorem yields_unsigned {bytes : List UInt8} {n : Nat} (h : UnsignedGroups bytes n) (hlength : bytes.length ≤ 10)
    (hfits : n < 2 ^ 64) : Yields unsigned bytes (UInt64.ofNat n) := by
  intro c rest hc
  have hdecode : unsignedFrom 0 0 0 (bytes ++ rest.take (maxBytes - bytes.length)) = _ :=
    unsignedFrom_groups h (by omega) (by simp) (by simpa using hfits) _
  unfold unsigned leb128
  rw [hc.window_eq, List.take_append, List.take_of_length_le (by rw [maxBytes]; omega), hdecode]
  simp

theorem yields_unsigned64 (n : UInt64) : Yields unsigned (writeUnsigned n.toNat) n := by
  have hlt := n.toNat_lt
  have hread := yields_unsigned (groups_writeUnsigned n.toNat)
    (length_writeUnsigned (Nat.lt_trans hlt (by norm_num)) (by omega)) hlt
  rwa [UInt64.ofNat_toNat] at hread

theorem run_unsigned32 (c : Cursor) : unsigned32 c = (unsigned >>= fun value =>
    if value.toNat < 2 ^ 32 then return value.toUInt32
    else throw (c.fault (.unsignedPastWord value)) : Read UInt32) c := rfl

theorem yields_groups32 {bytes : List UInt8} {n : UInt32} (h : UnsignedGroups bytes n.toNat)
    (hlength : bytes.length ≤ 10) : Yields unsigned32 bytes n := by
  intro c rest hc
  have hlt := n.toNat_lt
  have hread := yields_unsigned h hlength (by omega)
  have hvalue : (UInt64.ofNat n.toNat).toNat = n.toNat := UInt64.toNat_ofNat_of_lt' (by simp only [UInt64.size]; omega)
  rw [run_unsigned32, FirmwareDebug.run_bind, hread c rest hc]
  simp only [hvalue, if_pos hlt, UInt64.toUInt32_ofNat', UInt32.ofNat_toNat]
  rfl

theorem yields_unsigned32 (n : UInt32) : Yields unsigned32 (writeUnsigned n.toNat) n := by
  have hlt := n.toNat_lt
  exact yields_groups32 (groups_writeUnsigned n.toNat) (length_writeUnsigned (by omega) (by omega))

theorem reads_unsigned {bytes : List UInt8} {n : Nat} (h : UnsignedGroups bytes n) (hlength : bytes.length ≤ 10)
    (hfits : n < 2 ^ 64) : Reads unsigned bytes (UInt64.ofNat n) := (yields_unsigned h hlength hfits).reads

theorem reads_unsigned64 (n : UInt64) : Reads unsigned (writeUnsigned n.toNat) n := (yields_unsigned64 n).reads

theorem reads_unsigned32 (n : UInt32) : Reads unsigned32 (writeUnsigned n.toNat) n := (yields_unsigned32 n).reads

theorem yields_signed {bytes : List UInt8} {n : Int} (h : SignedGroups bytes n) (hlength : bytes.length ≤ 10) :
    Yields signed bytes (Int64.ofInt n) := by
  intro c rest hc
  have hdecode : signedFrom 0 0 0 (bytes ++ rest.take (maxBytes - bytes.length)) = _ :=
    signedFrom_groups h (by omega) (by simp) _
  unfold signed leb128
  rw [hc.window_eq, List.take_append, List.take_of_length_le (by rw [maxBytes]; omega), hdecode]
  simp

theorem reads_signed {bytes : List UInt8} {n : Int} (h : SignedGroups bytes n) (hlength : bytes.length ≤ 10) :
    Reads signed bytes (Int64.ofInt n) := (yields_signed h hlength).reads

theorem reads_signed32 (n : Int32) : Reads signed32 (writeSigned n.toInt) n := by
  intro c rest hc hplace
  have hlow := n.le_toInt
  have hhigh := n.toInt_lt
  have hread := reads_signed (groups_writeSigned n.toInt)
    (length_writeSigned (by omega : -(64 * 128 ^ 9) ≤ n.toInt) (by omega))
  have hvalue : (Int64.ofInt n.toInt).toInt = n.toInt := Int64.toInt_ofInt_of_le (by omega) (by omega)
  have hrun : signed32 c = (signed >>= fun value =>
      if -2 ^ 31 ≤ value.toInt ∧ value.toInt < 2 ^ 31 then return value.toInt32
      else throw (c.fault (.signedPastWord value)) : Read Int32) c := rfl
  rw [hrun, hread.run_bind hc hplace]
  simp only [hvalue, if_pos (And.intro hlow hhigh), Int64.toInt32_ofInt, Int32.ofInt_toInt]
  rfl

/-! ## Text and repeated reads -/

/-- The bytes of a text and the zero byte that ends it. -/
def writeText (s : String) : List UInt8 := s.toUTF8.data.toList ++ [0]

theorem yields_text {s : String} (h : 0 ∉ s.toUTF8.data.toList) : Yields text (writeText s) s := by
  intro c rest hc
  have hdecode : Text.decodeUtf8? s.toUTF8.data.toList = some s := by
    rw [Text.decodeUtf8?, Array.toArray_toList, String.fromUTF8?]
    exact dif_pos s.isValidUTF8
  rw [writeText, List.append_assoc, List.singleton_append] at hc
  have hleft := hc.left_eq
  rw [List.length_append, List.length_cons] at hleft
  have hlength : c.lengthToZero c.left 0 = some s.toUTF8.data.toList.length :=
    hc.lengthToZero_eq h (Nat.zero_le _) (by simp only [Cursor.left]; omega)
  unfold text
  rw [hlength]
  simp only [hc.window_eq, List.take_left, hdecode, writeText, List.length_append, List.length_singleton]

theorem reads_text {s : String} (h : 0 ∉ s.toUTF8.data.toList) : Reads text (writeText s) s := (yields_text h).reads

theorem textAt_written (region : String) (front : List UInt8) {s : String} (back : List UInt8)
    (h : 0 ∉ s.toUTF8.data.toList) (hplace : front.length + (writeText s).length < 2 ^ 64) :
    textAt region (front ++ (writeText s ++ back)).toArray front.length = .ok s := by
  rw [textAt, eval, reads_text h _ back (.place region front (writeText s ++ back)) hplace]

section

variable {ι : Type} {write : ι → List UInt8} {value : ι → α} {items : List ι}

theorem reads_times {step : Read α} (h : ∀ item ∈ items, Reads step (write item) (value item)) :
    Reads (times step items.length) (items.flatMap write) (items.map value) := by
  induction items with
  | nil => exact .pure _
  | cons item rest ih =>
    obtain ⟨hread, hrest⟩ := List.forall_mem_cons.mp h
    rw [List.flatMap_cons, List.length_cons, times]
    exact hread.bind ((ih hrest).map _)

theorem yields_repeatFor {step : Read (Option α)} {last : List UInt8}
    (h : ∀ item ∈ items, Yields step (write item) (some (value item))) (hlast : Yields step last none) {budget : Nat}
    (hbudget : items.length < budget) :
    Yields (repeatFor step budget) (items.flatMap write ++ last) (items.map value) := by
  induction items generalizing budget with
  | nil =>
    cases budget with
    | zero => cases hbudget
    | succ budget =>
      rw [List.flatMap_nil, List.nil_append, ← List.append_nil last]
      exact hlast.bind (.pure _)
  | cons item rest ih =>
    obtain ⟨hread, hrest⟩ := List.forall_mem_cons.mp h
    cases budget with
    | zero => cases hbudget
    | succ budget =>
      rw [List.flatMap_cons, List.append_assoc, repeatFor]
      exact hread.bind ((ih hrest (Nat.lt_of_succ_lt_succ hbudget)).map _)

theorem length_le_flatMap (h : ∀ item, write item ≠ []) : items.length ≤ (items.flatMap write).length := by
  induction items with
  | nil => simp
  | cons item rest ih =>
    have hpositive := List.length_pos_of_ne_nil (h item)
    simp only [List.flatMap_cons, List.length_append, List.length_cons]
    omega

theorem yields_untilNone {step : Read (Option α)} {last : List UInt8}
    (h : ∀ item ∈ items, Yields step (write item) (some (value item))) (hne : ∀ item, write item ≠ [])
    (hlast : Yields step last none) : Yields (untilNone step) (items.flatMap write ++ last) (items.map value) := by
  intro c rest hc
  have hcount : items.length ≤ (items.flatMap write).length := length_le_flatMap hne
  have hleft := hc.left_eq
  simp only [List.length_append] at hleft
  exact yields_repeatFor h hlast (by simp only [Cursor.left]; omega) c rest hc

end

theorem within_of_holds {c : Cursor} {bytes rest : List UInt8} (hc : c.Holds (bytes ++ rest)) :
    ∃ inner, within bytes.length c = .ok inner c ∧ inner.Holds bytes ∧ inner.position = c.position ∧
      inner.limit = c.position + bytes.length := by
  have hleft := hc.left_eq
  rw [List.length_append] at hleft
  have hfits : c.position + bytes.length ≤ c.limit := by omega
  refine ⟨{ c with limit := c.position + bytes.length, limit_le := Nat.le_trans hfits c.limit_le }, ?_, ?_, rfl, rfl⟩
  · unfold within Cursor.truncated?
    rw [dif_pos hfits]
  · apply Cursor.Holds.of_eq
    · exact Nat.le_add_right _ _
    · have hwindow := hc.window_eq bytes.length
      rw [Cursor.window, Nat.min_eq_right hfits, Array.toList_extract, List.extract_eq_take_drop,
        List.take_left] at hwindow
      rw [List.drop_take]
      exact hwindow

end Read

/-! ## Items in a row -/

theorem Decoded.ofCursor_written {ι α : Type} {step : Read α} {write : ι → List UInt8} {value : ι → α} {items : List ι}
    (h : ∀ item ∈ items, Read.Reads step (write item) (value item) ∧ write item ≠ []) {c : Cursor}
    (hc : c.Holds (items.flatMap write)) (hplace : c.limit < 2 ^ 64) :
    Decoded.ofCursor step c = ⟨items.map value, none⟩ := by
  have hcollect (budget : Nat) (hbudget : c.left ≤ budget) :
      Decoded.collect step budget c = ⟨items.map value, none⟩ := by
    induction items generalizing c budget with
    | nil =>
      have hleft := hc.left_eq
      have hend : c.atEnd = true := by
        simp only [Cursor.atEnd, decide_eq_true_eq]
        exact Nat.le_of_eq hleft
      cases budget with
      | zero => rfl
      | succ budget =>
        rw [collect, if_pos hend]
        rfl
    | cons item rest ih =>
      obtain ⟨⟨hread, hne⟩, hrest⟩ := List.forall_mem_cons.mp h
      have hpositive := List.length_pos_of_ne_nil hne
      have hleft := hc.left_eq
      rw [List.flatMap_cons] at hc hleft
      rw [List.length_append] at hleft
      unfold Cursor.left at hbudget
      cases budget with
      | zero => omega
      | succ budget =>
        have hmore : ¬ c.atEnd = true := by
          simp only [Cursor.atEnd, decide_eq_true_eq]
          omega
        have hnext := ih hrest hc.advance hplace budget (by simp only [Cursor.left, Cursor.advance]; omega)
        rw [collect, if_neg hmore, hread c _ hc (by omega)]
        simp only [hnext, cons, List.map_cons]
  exact hcollect c.left (Nat.le_refl _)

end FirmwareDebug
