import FirmwareDebug.Proofs.Form

/-!
# Reads that move

A read that takes at least one byte whenever it succeeds cannot succeed more often than there are bytes.
All values of forms move, apart from the two forms whose values have no bytes.
-/

namespace FirmwareDebug

namespace Read

variable {α β : Type} {read : Read α} {f : α → Read β}

theorem Takes.gives_true {P : List UInt8 → α → Prop} (h : Takes read P) : Gives read fun _ => True :=
  h.gives fun _ _ _ => trivial

/-- Whenever the read succeeds it has taken a byte. -/
def Moves (read : Read α) : Prop := Takes read fun taken _ => taken ≠ []

namespace Moves

theorem throw (e : Fault) : Moves (throw e : Read α) := Takes.throw e

theorem bind (h : Moves read) (hf : ∀ a, Gives (f a) fun _ => True) : Moves (read >>= f) := by
  apply Takes.bind h
  intro front a hfront
  apply (hf a).mono
  intro back _ _ hnil
  exact hfront (List.append_eq_nil_iff.mp hnil).1

theorem andThen (h : Gives read fun _ => True) (hf : ∀ a, Moves (f a)) : Moves (read >>= f) := by
  apply Takes.bind h
  intro front a _
  apply (hf a).mono
  intro back _ hback hnil
  exact hback (List.append_eq_nil_iff.mp hnil).2

theorem map (h : Moves read) (g : α → β) : Moves (do return g (← read)) := h.bind fun _ => .pure trivial

theorem discard (h : Moves read) : Moves (discard read) := Takes.discard h fun _ _ hne => hne

end Moves

theorem moves_byte : Moves byte := takes_byte.mono fun _ _ htaken => by simp [htaken]

theorem moves_bytes {length : Nat} (hlength : 0 < length) : Moves (bytes length) := by
  apply (takes_bytes length).mono
  rintro taken value ⟨rfl, hvalue⟩
  exact List.ne_nil_of_length_pos (hvalue ▸ hlength)

theorem moves_number {size : Nat} (hsize : 0 < size) : Moves (number size) := (moves_bytes hsize).map _

theorem moves_constant {size : Nat} (hsize : 0 < size) : Moves (constant size) := (moves_number hsize).map _

theorem moves_half : Moves half := (moves_number (by decide)).map _

theorem moves_word : Moves word := (moves_number (by decide)).map _

theorem moves_long : Moves long := (moves_number (by decide)).map _

theorem moves_sized (size : UInt8) : Moves (sized size) := by
  unfold sized
  split
  · rename_i hsize
    have hpositive : 0 < size.toNat := by rcases hsize with rfl | rfl | rfl | rfl <;> decide
    exact (moves_number hpositive).map _
  · exact Takes.malformed _

theorem moves_address (size : UInt8) : Moves (address size) := by
  unfold address
  split
  · exact moves_word
  · exact .throw _

theorem moves_unsigned : Moves unsigned := takes_unsigned.mono fun _ _ => ne_nil_of_isUnsigned

theorem moves_signed : Moves signed := by
  apply takes_signed.mono
  rintro taken value hsigned rfl
  cases hsigned

theorem moves_text : Moves text := by
  apply takes_text.mono
  rintro taken _ ⟨front, -, rfl⟩
  simp

theorem gives_narrow (offset : UInt64) : Gives (narrow offset) fun _ => True :=
  .ite (fun _ => .pure trivial) fun _ => .malformed _

/-! ## Repeated reads -/

theorem length_cons_le {front back : List UInt8} {a : α} {items : List α} (hfront : front ≠ [])
    (hback : items.length ≤ back.length) : (a :: items).length ≤ (front ++ back).length := by
  have hpositive := List.length_pos_of_ne_nil hfront
  simp only [List.length_cons, List.length_append]
  omega

theorem takes_times {step : Read α} (h : Moves step) (count : Nat) :
    Takes (times step count) fun taken items => items.length ≤ taken.length := by
  induction count with
  | zero => exact .pure (Nat.le_refl 0)
  | succ count ih =>
    apply Takes.bind h
    intro front a hfront
    apply (takes_map ih _).mono
    rintro back _ ⟨items, hback, rfl⟩
    exact length_cons_le hfront hback

theorem takes_untilNone {step : Read (Option α)} (h : Moves step) :
    Takes (untilNone step) fun taken items => items.length ≤ taken.length := by
  have hrepeat (budget : Nat) : Takes (repeatFor step budget) fun taken items => items.length ≤ taken.length := by
    induction budget with
    | zero => exact Takes.bind Gives.get fun _ _ _ => .throw _
    | succ budget ih =>
      apply Takes.bind h
      intro front found hfront
      cases found with
      | none => exact .pure (Nat.zero_le _)
      | some a =>
        apply (takes_map ih _).mono
        rintro back _ ⟨items, hback, rfl⟩
        exact length_cons_le hfront hback
  exact fun c => hrepeat (c.left + 1) c

end Read

/-! ## Values -/

namespace Form

open Read

variable {encoding : Encoding} {implicit : Option Int64} {form : Form}

theorem moves_block {α : Type} {length : Read α} (h : Moves length) (size : α → Nat) (f : List UInt8 → AttributeValue) :
    Moves (do return f (← bytes (size (← length)))) := h.bind fun _ => gives_map (gives_bytes _) f

theorem moves_reference {wide : Read UInt64} (h : Moves wide) (f : UInt32 → AttributeValue) :
    Moves (do return f (← narrow (← wide))) := h.bind fun _ => gives_map (gives_narrow _) f

theorem moves_readDirect (hform : form ∉ formsOfSize 0) : Moves (form.readDirect encoding implicit) := by
  cases form with
  | flagPresent | implicitConst => simp [formsOfSize] at hform
  | indirect | other => exact .throw _
  | address => exact (moves_address _).map _
  | flag | ref1 => exact moves_byte.map _
  | ref2 => exact moves_half.map _
  | ref4 | strp | lineStrp | strpSup | gnuStrpAlt | secOffset => exact moves_word.map _
  | refSup8 | refSig8 => exact moves_long.map _
  | data16 => exact (moves_bytes (by decide)).map _
  | addrx1 | addrx2 | addrx3 | addrx4 | data1 | data2 | data4 | data8 | refSup4 | gnuRefAlt | strx1 | strx2 | strx3
  | strx4 => exact (moves_constant (by decide)).map _
  | addrx | gnuAddrIndex | udata | strx | gnuStrIndex | loclistx | rnglistx => exact moves_unsigned.map _
  | sdata => exact moves_signed.map _
  | string => exact moves_text.map _
  | ref8 => exact moves_reference moves_long _
  | refUdata => exact moves_reference moves_unsigned _
  | refAddr => exact moves_reference (moves_sized _) _
  | block1 => exact moves_block moves_byte UInt8.toNat _
  | block2 => exact moves_block moves_half UInt16.toNat _
  | block4 => exact moves_block moves_word UInt32.toNat _
  | block | exprloc => exact moves_block moves_unsigned UInt64.toNat _

theorem gives_readDirect (form : Form) : Gives (form.readDirect encoding implicit) fun _ => True := by
  by_cases hform : form ∈ formsOfSize 0
  · rcases List.mem_pair.mp hform with rfl | rfl
    · exact .pure trivial
    · exact .pure trivial
  · exact (moves_readDirect hform).gives_true

theorem moves_indirectForm : Moves indirectForm :=
  moves_unsigned.bind fun _ => .ite (fun _ => .pure trivial) fun _ => .malformed _

theorem gives_directFor (budget : Nat) (form : Form) : Gives (directFor budget form) fun _ => True := by
  have htakes : Takes (directFor budget form) fun front last =>
      ∀ back, ValueBytes ⟨5, 4⟩ last back → ValueBytes ⟨5, 4⟩ form (front ++ back) := takes_directFor budget form
  exact htakes.gives_true

theorem gives_read (form : Form) : Gives (form.read encoding implicit) fun _ => True :=
  have hdirect : Gives form.direct fun _ => True := fun c => gives_directFor (c.left + 1) form c
  hdirect.bind fun last _ => last.gives_readDirect

theorem moves_read (hform : form ∉ formsOfSize 0) : Moves (form.read encoding implicit) := by
  by_cases hindirect : form = .indirect
  · subst hindirect
    have hdirect : Moves Form.indirect.direct := fun c =>
      moves_indirectForm.bind (fun form => gives_directFor c.left form) c
    exact hdirect.bind gives_readDirect
  · rw [Form.read, direct_of_ne hindirect, pure_bind]
    exact moves_readDirect hform

end Form

end FirmwareDebug
