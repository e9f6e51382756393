import FirmwareDebug.Proofs.Index.Grammar

/-!
# An abbreviation is told apart by its place

Tables may overlap, but whoever reads an abbreviation at a place reads the same one.
-/

namespace FirmwareDebug

open Read

namespace Abbreviation

theorem gives_readSpec : Gives readSpec fun _ => True := by
  have hfault {f : PUnit → Read (Option AttributeSpec)} (defect : Defect) :
      Gives (malformed defect >>= f) fun _ => True :=
    (Gives.malformed (P := fun _ => False) defect).bind fun _ h => h.elim
  refine gives_unsigned.bind fun name _ => gives_unsigned.bind fun form _ => ?_
  refine .ite (fun _ => .pure trivial) fun _ => .ite (fun _ => hfault _) fun _ =>
    .ite (fun _ => hfault _) fun _ => .ite (fun _ => ?_) fun _ => ?_
  · exact Gives.bind (gives_map gives_signed some) fun _ _ => .pure trivial
  · exact Gives.bind (P := fun _ => True) (.pure trivial) fun _ _ => .pure trivial

theorem gives_readChildren : Gives readChildren fun _ => True := by
  refine gives_byte.bind fun flag _ => ?_
  split
  · exact .pure trivial
  · exact .pure trivial
  · exact .malformed _

theorem read_placed {c next : Cursor} {found : Option Abbreviation} (h : read c = .ok found next) :
    c.Ahead next ∧ c.position < next.position ∧ ∀ a, found = some a → a.offset = UInt32.ofNat c.position := by
  unfold read at h
  simp only [run_bind_eq_ok_iff, run_position_eq_ok_iff] at h
  obtain ⟨_, c, ⟨rfl, rfl⟩, code, c₂, hcode, h⟩ := h
  obtain ⟨hahead, hmoved⟩ := takes_unsigned c code c₂ hcode
  have hlength := List.length_pos_of_ne_nil (ne_nil_of_isUnsigned hmoved)
  rw [hahead.length_upTo] at hlength
  have hrest : Gives (do
      if code = 0 then return none
      let tag ← unsigned
      if 2 ^ 16 ≤ tag.toNat then malformed (.tagRange tag)
      let hasChildren ← readChildren
      let attributes ← untilNone readSpec
      return some ⟨code, ⟨tag.toUInt16⟩, hasChildren, UInt32.ofNat c.position, attributes⟩)
        fun found : Option Abbreviation => ∀ a, found = some a → a.offset = UInt32.ofNat c.position := by
    refine .ite (fun _ => .pure ?_) fun _ => gives_unsigned.bind fun tag _ => .ite (fun _ => ?_) fun _ => ?_
    · simp
    · exact (Gives.malformed (P := fun _ => False) _).bind fun _ h => h.elim
    · refine gives_readChildren.bind fun _ _ => (gives_untilNone gives_readSpec).bind fun _ _ => .pure ?_
      rintro a ⟨⟩
      rfl
  obtain ⟨hlast, hfound⟩ := hrest c₂ found next h
  have hle := hlast.position_le
  exact ⟨hahead.trans hlast, by omega, hfound⟩

end Abbreviation

namespace AbbreviationTable

/-- The abbreviation is read at a place of the section. -/
def PlacedIn (bytes : Bytes) (a : Abbreviation) : Prop :=
  ∃ place next, place < bytes.size ∧
    Abbreviation.read (.place Abbreviation.region bytes place) = .ok (some a) next

theorem read_of_readNew {seen : List UInt64} {c next : Cursor} {found : Option Abbreviation}
    (h : readNew seen c = .ok found next) : Abbreviation.read c = .ok found next := by
  obtain ⟨found', c₁, hread, h⟩ := ran_of_bind h
  cases found' with
  | none =>
    cases h
    exact hread
  | some a =>
    simp only at h
    split at h
    · cases h
    · cases h
      exact hread

theorem placedIn_of_readFrom {bytes : Bytes} {seen : List UInt64} {budget place : Nat} {next : Cursor}
    {entries : List Abbreviation}
    (h : readFrom seen budget (.place Abbreviation.region bytes place) = .ok entries next) :
    ∀ a ∈ entries, PlacedIn bytes a := by
  induction budget generalizing seen place entries next with
  | zero => cases h
  | succ budget ih =>
    obtain ⟨found, c₁, hnew, h⟩ := ran_of_bind h
    have hread := read_of_readNew hnew
    cases found with
    | none =>
      cases h
      simp
    | some a =>
      obtain ⟨⟨count, rfl, hcount⟩, hposition, -⟩ := Abbreviation.read_placed hread
      obtain ⟨rest, c₂, hrest, h⟩ := ran_of_bind h
      cases h
      simp only [Cursor.advance, Cursor.place] at hposition hcount
      refine List.forall_mem_cons.mpr ⟨⟨place, _, by omega, hread⟩, ?_⟩
      -- The cursor behind an abbreviation is again one on the whole section.
      exact ih (show readFrom (a.code :: seen) budget (.place Abbreviation.region bytes (place + count)) = _
        from hrest)

theorem placedIn_of_read {bytes : Bytes} {offset : UInt32} {table : AbbreviationTable}
    (h : read bytes offset = .ok table) : ∀ a ∈ table.entries, PlacedIn bytes a := by
  obtain ⟨entries, heval, h⟩ := ok_of_bind h
  cases h
  obtain ⟨next, hread⟩ := eval_eq_ok_iff.mp heval
  exact placedIn_of_readFrom hread

theorem PlacedIn.eq_of_offset_eq {bytes : Bytes} {a b : Abbreviation} (hsize : bytes.size < 2 ^ 32)
    (ha : PlacedIn bytes a) (hb : PlacedIn bytes b) (h : b.offset = a.offset) : b = a := by
  obtain ⟨place, next, hplace, hread⟩ := ha
  obtain ⟨other, last, hother, hread'⟩ := hb
  obtain ⟨-, -, hoffset⟩ := Abbreviation.read_placed hread
  obtain ⟨-, -, hoffset'⟩ := Abbreviation.read_placed hread'
  rw [hoffset a rfl, hoffset' b rfl] at h
  have heq : other = place := by
    have htoNat := congrArg UInt32.toNat h
    simp only [Cursor.place] at htoNat
    rwa [UInt32.toNat_ofNat_of_lt' (by rw [UInt32.size]; omega),
      UInt32.toNat_ofNat_of_lt' (by rw [UInt32.size]; omega)] at htoNat
  rw [heq, hread] at hread'
  cases hread'
  rfl

end AbbreviationTable

end FirmwareDebug
