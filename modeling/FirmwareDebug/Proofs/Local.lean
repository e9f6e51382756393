import FirmwareDebug.Form
import FirmwareDebug.Proofs.Alike

/-!
# Reads see only the bytes between their cursor and its end

On two cursors at one place with one end, whose bytes agree from some place before them up to that end, a read
does the same: it gives the same value or the same fault, and leaves cursors that agree again. Reads are put
together from such reads, so this is found by instances, as far as a read does not go back.
-/

namespace FirmwareDebug

/-- Two cursors at the same place and with the same end; from `low` up to there the bytes are the same. -/
structure Cursor.Agrees (low : Nat) (c d : Cursor) : Prop where
  region : c.region = d.region
  position : c.position = d.position
  limit : c.limit = d.limit
  reached : low ≤ c.position
  bytes : ∀ i, low ≤ i → i < c.limit → c.bytes[i]? = d.bytes[i]?

theorem extract_congr {a b : Bytes} {start stop : Nat} (ha : stop ≤ a.size) (hb : stop ≤ b.size)
    (h : ∀ i, start ≤ i → i < stop → a[i]? = b[i]?) : a.extract start stop = b.extract start stop := by
  refine Array.ext_getElem? fun i => ?_
  rw [Array.getElem?_extract, Array.getElem?_extract, Nat.min_eq_left ha, Nat.min_eq_left hb]
  split
  · exact h _ (by omega) (by omega)
  · rfl

namespace Cursor.Agrees

variable {low : Nat} {c d : Cursor}

theorem advance (h : Agrees low c d) (count : Nat) : Agrees low (c.advance count) (d.advance count) where
  region := h.region
  position := congrArg (· + count) h.position
  limit := h.limit
  reached := Nat.le_trans h.reached (Nat.le_add_right _ _)
  bytes := h.bytes

theorem left_eq (h : Agrees low c d) : c.left = d.left := by
  rw [left, left, h.limit, h.position]

theorem atEnd_eq (h : Agrees low c d) : c.atEnd = d.atEnd := by
  rw [atEnd, atEnd, h.limit, h.position]

theorem endFault_eq (h : Agrees low c d) : c.endFault = d.endFault := by
  rw [endFault, endFault, h.region, h.position]

theorem fault_eq (h : Agrees low c d) (defect : Defect) : c.fault defect = d.fault defect := by
  rw [Cursor.fault, Cursor.fault, h.region, h.position]

theorem window_eq (h : Agrees low c d) (count : Nat) : c.window count = d.window count := by
  have hc := c.limit_le
  have hd := d.limit_le
  have hlimit := h.limit
  have hreached := h.reached
  rw [window, window, ← h.position, ← h.limit]
  exact extract_congr (by omega) (by omega) fun i hlow hlt => h.bytes i (by omega) (by omega)

theorem lengthToZero_eq (h : Agrees low c d) {left count : Nat} (hleft : c.position + count + left ≤ c.limit) :
    c.lengthToZero left count = d.lengthToZero left count := by
  have hreached := h.reached
  induction left generalizing count with
  | zero => rfl
  | succ left ih =>
    rw [lengthToZero, lengthToZero, ← h.position, h.bytes _ (by omega) (by omega), ih (by omega)]

theorem length_to_zero_eq (h : Agrees low c d) : c.lengthToZero c.left 0 = d.lengthToZero d.left 0 := by
  rw [← h.left_eq]
  by_cases hposition : c.position ≤ c.limit
  · exact h.lengthToZero_eq (by rw [left]; omega)
  · have hleft : c.left = 0 := Nat.sub_eq_zero_of_le (Nat.le_of_not_le hposition)
    rw [hleft]
    rfl

end Cursor.Agrees

theorem EndAlike.eval_eq {α : Type} {read other : Read α} {R : Cursor → Cursor → Prop} {Allowed : Fault → Prop}
    {c d : Cursor} (h : EndAlike R Allowed (read c) (other d)) : read.eval c = other.eval d := by
  unfold Read.eval
  obtain ⟨_, _, _, hc, hd, -⟩ | ⟨_, _, _, hc, hd, -⟩ := h.cases
  · rw [hc, hd]
  · rw [hc, hd]

/-- A read that does the same on cursors that agree. -/
class Local {α : Type} (read : Read α) : Prop where
  alike : ∀ low, Alike (Cursor.Agrees low) (fun _ => True) read read

namespace Local

variable {α β : Type} {read other : Read α}

instance pure (a : α) : Local (pure a : Read α) := ⟨fun _ => .pure a⟩

instance throw (e : Fault) : Local (throw e : Read α) := ⟨fun _ => .throw trivial⟩

instance bind {f : α → Read β} [h : Local read] [hf : ∀ a, Local (f a)] : Local (read >>= f) :=
  ⟨fun low => (h.alike low).bind fun a => (hf a).alike low⟩

theorem andThen {f : α → Read β} [Local read] (h : ∀ a, Local (f a)) : Local (read >>= f) := bind

instance map {f : α → β} [Local read] : Local (f <$> read) := by
  rw [← bind_pure_comp]
  infer_instance

instance discard [Local read] : Local (discard read) := by
  rw [discard_eq]
  infer_instance

instance liftExcept (x : Except Fault α) : Local (liftExcept x : Read α) := ⟨fun _ => .liftExcept fun _ _ => trivial⟩

instance ite {p : Prop} [Decidable p] [Local read] [Local other] : Local (if p then read else other) := by
  split <;> assumption

theorem get_bind {f : Cursor → Read α} [hf : ∀ c, Local (f c)]
    (h : ∀ c d : Cursor, c.region = d.region → c.position = d.position → c.limit = d.limit → f c = f d) :
    Local (get >>= f) := by
  refine ⟨fun low c d hcd => ?_⟩
  have hplace := h c d hcd.region hcd.position hcd.limit
  have hend := (hf c).alike low c d hcd
  show EndAlike _ _ (f c c) (f d d)
  rwa [← hplace]

theorem position_bind {f : Nat → Read α}
    (h : ∀ low place, low ≤ place → Alike (Cursor.Agrees low) (fun _ => True) (f place) (f place)) :
    Local (Read.position >>= f) := by
  refine ⟨fun low c d hcd => ?_⟩
  have hend := h low c.position hcd.reached c d hcd
  show EndAlike _ _ (f c.position c) (f d.position d)
  rwa [← hcd.position]

theorem eval_eq [h : Local read] {low : Nat} {c d : Cursor} (hcd : c.Agrees low d) : read.eval c = read.eval d :=
  (h.alike low c d hcd).eval_eq

end Local

theorem alike_seek {low place : Nat} (h : low ≤ place) :
    Alike (Cursor.Agrees low) (fun _ => True) (Read.seek place) (Read.seek place) :=
  .modify fun _ _ hcd => ⟨hcd.region, rfl, hcd.limit, h, hcd.bytes⟩

namespace Read

variable {α : Type}

/-! ## Bytes and numbers -/

instance (defect : Defect) : Local (malformed defect : Read α) :=
  Local.get_bind fun c d hregion hposition _ => by rw [Cursor.fault, Cursor.fault, hregion, hposition]

instance : Local position := Local.get_bind fun _ _ _ hposition _ => by rw [hposition]

instance : Local atEnd :=
  Local.get_bind fun c d _ hposition hlimit => by rw [Cursor.atEnd, Cursor.atEnd, hposition, hlimit]

instance (length : Nat) : Local (bytes length) := by
  refine ⟨fun low c d h => ?_⟩
  unfold bytes
  rw [← h.position, ← h.limit]
  split
  · exact ⟨congrArg Array.toList (h.window_eq length), h.advance length⟩
  · exact ⟨⟨h.endFault_eq, trivial⟩, h⟩

instance (length : Nat) : Local (skip length) := by
  refine ⟨fun low c d h => ?_⟩
  unfold skip
  rw [← h.position, ← h.limit]
  split
  · exact ⟨rfl, h.advance length⟩
  · exact ⟨⟨h.endFault_eq, trivial⟩, h⟩

instance : Local byte := by
  refine ⟨fun low c d h => ?_⟩
  have hc := c.limit_le
  have hd := d.limit_le
  have hlimit := h.limit
  have hposition := h.position
  unfold byte
  by_cases hlt : c.position < c.limit
  · have hlt' : d.position < d.limit := by omega
    have hbyte := h.bytes c.position h.reached hlt
    rw [Array.getElem?_eq_getElem (by omega)] at hbyte
    rw [dif_pos hlt, dif_pos hlt']
    refine ⟨?_, h.advance 1⟩
    apply Option.some.inj
    rw [hbyte, ← Array.getElem?_eq_getElem (by omega), hposition]
  · have hlt' : ¬ d.position < d.limit := by omega
    rw [dif_neg hlt, dif_neg hlt']
    exact ⟨⟨h.endFault_eq, trivial⟩, h⟩

instance : Local text := by
  refine ⟨fun low c d h => ?_⟩
  unfold text
  rw [← h.length_to_zero_eq]
  split
  · rw [← h.window_eq]
    split
    · exact ⟨rfl, h.advance _⟩
    · exact ⟨⟨h.fault_eq _, trivial⟩, h⟩
  · rw [h.region, h.limit]
    exact ⟨⟨rfl, trivial⟩, h⟩

instance (decode : List UInt8 → Leb128.Ending α) (tooWide : Defect) : Local (leb128 decode tooWide) := by
  refine ⟨fun low c d h => ?_⟩
  unfold leb128
  rw [← h.window_eq]
  split
  · exact ⟨rfl, h.advance _⟩
  · exact ⟨⟨h.fault_eq _, trivial⟩, h.advance _⟩
  · exact ⟨⟨(h.advance _).endFault_eq, trivial⟩, h.advance _⟩

instance (size : Nat) : Local (number size) := inferInstanceAs (Local (bytes size >>= _))

instance : Local signedByte := inferInstanceAs (Local (byte >>= _))

instance : Local half := inferInstanceAs (Local (number 2 >>= _))

instance : Local word := inferInstanceAs (Local (number 4 >>= _))

instance : Local long := inferInstanceAs (Local (number 8 >>= _))

instance (size : UInt8) : Local (sized size) := by
  unfold sized
  infer_instance

instance (size : UInt8) : Local (address size) := by
  unfold address
  infer_instance

instance : Local unsigned := inferInstanceAs (Local (leb128 _ _))

instance : Local signed := inferInstanceAs (Local (leb128 _ _))

instance : Local unsigned32 := by
  refine Local.get_bind fun c d hregion hposition _ => ?_
  simp only [Cursor.fault, hregion, hposition]

instance : Local signed32 := by
  refine Local.get_bind fun c d hregion hposition _ => ?_
  simp only [Cursor.fault, hregion, hposition]

/-! ## Repetition -/

section

variable {read : Read α} [Local read] {step : Read (Option α)} [Local step]

instance (budget : Nat) : Local (repeatFor step budget) := by
  induction budget with
  | zero =>
    refine Local.get_bind fun c d hregion hposition _ => ?_
    rw [Cursor.endFault, Cursor.endFault, hregion, hposition]
  | succ budget ih =>
    unfold repeatFor
    refine .andThen fun found => ?_
    split <;> infer_instance

instance : Local (untilNone step) := by
  refine ⟨fun low c d h => ?_⟩
  have hrepeat : Local (repeatFor step (c.left + 1)) := inferInstance
  have hend := hrepeat.alike low c d h
  unfold untilNone
  rwa [← h.left_eq]

instance (count : Nat) : Local (times read count) := by
  induction count with
  | zero =>
    unfold times
    infer_instance
  | succ count ih =>
    unfold times
    infer_instance

theorem collect_congr (budget : Nat) {low : Nat} {c d : Cursor} (h : c.Agrees low d) :
    Decoded.collect read budget c = Decoded.collect read budget d := by
  induction budget generalizing c d with
  | zero => rfl
  | succ budget ih =>
    rw [Decoded.collect, Decoded.collect, ← h.atEnd_eq]
    have hlocal : Local read := inferInstance
    obtain ⟨_, _, _, hc, hd, hnext⟩ | ⟨_, _, _, hc, hd, -⟩ := (hlocal.alike low c d h).cases
    · rw [hc, hd]
      simp only [ih hnext]
    · rw [hc, hd]

theorem ofCursor_congr {low : Nat} {c d : Cursor} (h : c.Agrees low d) :
    Decoded.ofCursor read c = Decoded.ofCursor read d := by
  rw [Decoded.ofCursor, Decoded.ofCursor, ← h.left_eq, collect_congr _ h]

end

/-! ## Forms -/

instance : Local indirectForm := by
  unfold indirectForm
  infer_instance

instance (offset : UInt64) : Local (narrow offset) := by
  unfold narrow
  infer_instance

instance (size : Nat) : Local (constant size) := by
  unfold constant
  infer_instance

end Read

namespace Form

variable (encoding : Encoding) (form : Form) (implicit : Option Int64)

instance (budget : Nat) : Local (directFor budget form) := by
  induction budget generalizing form with
  | zero => exact inferInstanceAs (Local (pure form))
  | succ budget ih =>
    cases form with
    | indirect => exact inferInstanceAs (Local (Read.indirectForm >>= directFor budget))
    | _ => exact inferInstanceAs (Local (pure _))

instance : Local form.direct := by
  refine ⟨fun low c d h => ?_⟩
  have hdirect : Local (directFor (c.left + 1) form) := inferInstance
  have hend := hdirect.alike low c d h
  unfold direct
  rwa [← h.left_eq]

instance : Local (readDirect encoding implicit form) := by
  unfold readDirect
  split <;> infer_instance

instance : Local (form.read encoding implicit) := by
  unfold Form.read
  infer_instance

instance : Local (skipDirect encoding form) := by
  unfold skipDirect
  split
  · infer_instance
  · split <;> infer_instance

instance : Local (form.skip encoding) := by
  unfold Form.skip
  infer_instance

end Form

end FirmwareDebug
