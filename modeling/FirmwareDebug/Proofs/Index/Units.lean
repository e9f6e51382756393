import FirmwareDebug.Proofs.Index.Grammar
import FirmwareDebug.Proofs.Search

/-!
# Units tile their sections

A header moves the cursor to the end of its unit, so the next one begins there. The offsets of the
second section are raised to begin where those of the first one end.
-/

namespace FirmwareDebug

open Read

namespace UnitHeader

/-! ## One header -/

theorem gives_readLayout (version : UInt16) (inTypes : Bool) :
    Gives (readLayout version inTypes) fun _ => True := by
  unfold readLayout
  refine .ite (fun _ => ?_) fun _ => ?_
  · exact gives_byte.bind fun _ _ => gives_byte.bind fun _ _ => gives_map gives_word _
  · exact gives_word.bind fun _ _ => gives_map gives_byte _

theorem gives_readExtras (kind : UInt8) : Gives (readExtras kind) fun _ => True := by
  unfold readExtras
  split
  · exact gives_long.bind fun _ _ => gives_map gives_word _
  · exact gives_long.bind fun _ _ => gives_map gives_word _
  · exact (gives_discard gives_long).bind fun _ _ => .pure trivial
  · exact (gives_discard gives_long).bind fun _ _ => .pure trivial
  · exact .pure trivial
  · exact .pure trivial
  · exact .malformed _

/-- What a header says of its place in its section. -/
structure PlacedAt (bias : UInt32) (inTypes : Bool) (start first stop : Nat) (header : UnitHeader) :
    Prop where
  offset_eq : header.offset = UInt32.ofNat start + bias
  firstEntry_eq : header.firstEntry = UInt32.ofNat first + bias
  stop_eq : header.stop = UInt32.ofNat stop + bias
  inTypes_eq : header.inTypes = inTypes

theorem readFields_placed {bias : UInt32} {inTypes : Bool} {start stop : Nat} {c next : Cursor}
    {header : UnitHeader} (h : readFields bias inTypes start stop c = .ok header next) :
    c.Ahead next ∧ PlacedAt bias inTypes start next.position stop header := by
  simp only [readFields, run_bind_eq_ok_iff, run_guard_eq_ok_iff, run_position_eq_ok_iff, run_pure_eq_ok_iff] at h
  obtain ⟨version, c₁, hversion, -, ⟨kind, _, _⟩, c₂, hlayout, -, _, c₃, hextras, _, _, ⟨rfl, rfl⟩, rfl, rfl⟩ := h
  have hhalf := (gives_half c version c₁ hversion).1
  have hlayout := (gives_readLayout version inTypes c₁ _ c₂ hlayout).1
  have hextras := (gives_readExtras kind c₂ _ _ hextras).1
  exact ⟨(hhalf.trans hlayout).trans hextras, rfl, rfl, rfl, rfl⟩

theorem read_eq_ok_iff {bias : UInt32} {inTypes : Bool} {c after : Cursor} {header : UnitHeader} :
    read bias inTypes c = .ok header after ↔ ∃ length middle unit, word c = .ok length middle ∧
      length < 0xfffffff0 ∧ middle.truncated? length.toNat = some unit ∧
        (readFields bias inTypes c.position (middle.position + length.toNat)).eval unit = .ok header ∧
          after = { middle with position := middle.position + length.toNat } := by
  have hcompact {length : UInt32} : length < 0xfffffff0 ↔ ¬ length = 0xffffffff ∧ ¬ 0xfffffff0 ≤ length := by
    rw [UInt32.not_le, iff_and_self]
    rintro hlt rfl
    exact absurd hlt (by decide)
  simp only [read, run_bind_eq_ok_iff, run_guard_eq_ok_iff, run_check_eq_ok_iff, run_position_eq_ok_iff,
    run_within_eq_ok_iff, run_liftExcept_eq_ok_iff, run_seek_eq_ok_iff, run_pure_eq_ok_iff, hcompact]
  constructor
  · rintro ⟨_, _, ⟨rfl, rfl⟩, length, middle, hlength, hwide, hreserved, _, _, ⟨rfl, rfl⟩, unit, _, ⟨rfl, hunit⟩,
      _, _, ⟨heval, rfl⟩, -, _, rfl, rfl, rfl⟩
    exact ⟨length, _, unit, hlength, ⟨hwide, hreserved⟩, hunit, heval, rfl⟩
  · rintro ⟨length, middle, unit, hlength, ⟨hwide, hreserved⟩, hunit, heval, rfl⟩
    exact ⟨_, _, ⟨rfl, rfl⟩, length, middle, hlength, hwide, hreserved, _, _, ⟨rfl, rfl⟩, unit, _, ⟨rfl, hunit⟩,
      _, _, ⟨heval, rfl⟩, (), _, rfl, rfl, rfl⟩

theorem read_placed {bias : UInt32} {inTypes : Bool} {c after : Cursor} {header : UnitHeader}
    (h : read bias inTypes c = .ok header after) :
    (∃ stop, after = { c with position := stop } ∧ stop ≤ c.limit) ∧
      ∃ first, c.position < first ∧ first ≤ after.position ∧
        PlacedAt bias inTypes c.position first after.position header := by
  obtain ⟨length, middle, unit, hlength, -, htruncated, heval, rfl⟩ := read_eq_ok_iff.mp h
  obtain ⟨hword, hfour, -⟩ := takes_word c length middle hlength
  obtain ⟨-, -, hposition, hlimit, hfits⟩ := Cursor.eq_of_truncated? htruncated
  obtain ⟨last, hfields⟩ := eval_eq_ok_iff.mp heval
  obtain ⟨hahead, hplaced⟩ := readFields_placed hfields
  have hfirst := hahead.position_le
  have hlast := hahead.le_limit (by omega)
  rw [hahead.limit_eq] at hlast
  rw [hword.length_upTo] at hfour
  obtain ⟨count, rfl, -⟩ := hword
  refine ⟨⟨_, rfl, hfits⟩, last.position, by omega, ?_, hplaced⟩
  show last.position ≤ (c.advance count).position + length.toNat
  omega

/-! ## The headers of a section -/

theorem toNat_ofNat_add (n : Nat) (bias : UInt32) (h : n + bias.toNat < 2 ^ 32) :
    (UInt32.ofNat n + bias).toNat = n + bias.toNat := by
  rw [UInt32.toNat_add, UInt32.toNat_ofNat', Nat.mod_add_mod, Nat.mod_eq_of_lt h]

/-- A header knows its section, and its entries come behind it. -/
structure Fits (inTypes : Bool) (header : UnitHeader) : Prop where
  inTypes_eq : header.inTypes = inTypes
  offset_lt : header.offset < header.firstEntry
  firstEntry_le : header.firstEntry ≤ header.stop

theorem Tile.append {start middle stop : Nat} {front back : List UnitHeader}
    (hfront : Tile start middle front) (hback : Tile middle stop back) : Tile start stop (front ++ back) := by
  induction front generalizing start with
  | nil =>
    cases hfront
    exact hback
  | cons header rest ih =>
    obtain ⟨hoffset, hstop, hrest⟩ := hfront
    exact ⟨hoffset, hstop, ih hrest⟩

theorem Tile.bounds {start stop : Nat} {headers : List UnitHeader} (h : Tile start stop headers) :
    start ≤ stop ∧ ∀ header ∈ headers, start ≤ header.offset.toNat ∧ header.stop.toNat ≤ stop := by
  induction headers generalizing start with
  | nil =>
    cases h
    exact ⟨Nat.le_refl _, by simp⟩
  | cons header rest ih =>
    obtain ⟨hoffset, hstop, hrest⟩ := h
    obtain ⟨hle, hbounds⟩ := ih hrest
    refine ⟨by omega, List.forall_mem_cons.mpr ⟨⟨by omega, hle⟩, fun other hmem => ?_⟩⟩
    have := hbounds other hmem
    omega

theorem Tile.stop_eq {start stop : Nat} {front : List UnitHeader} {header : UnitHeader}
    (h : Tile start stop (front ++ [header])) : header.stop.toNat = stop := by
  induction front generalizing start with
  | nil => exact h.2.2
  | cons first rest ih => exact ih h.2.2

theorem Tile.pairwise {start stop : Nat} {headers : List UnitHeader} (h : Tile start stop headers) :
    headers.Pairwise fun a b => a.offset < a.stop ∧ a.stop ≤ b.offset := by
  induction headers generalizing start with
  | nil => exact .nil
  | cons header rest ih =>
    obtain ⟨hoffset, hstop, hrest⟩ := h
    refine .cons (fun other hmem => ⟨UInt32.lt_iff_toNat_lt.mpr (by omega), ?_⟩) (ih hrest)
    exact UInt32.le_iff_toNat_le.mpr (hrest.bounds.2 other hmem).1

theorem tile_of_steps {bias : UInt32} {inTypes : Bool} {c : Cursor} {headers : List UnitHeader}
    (h : Steps (read bias inTypes) c headers) (hposition : c.position ≤ c.limit)
    (hlimit : c.limit + bias.toNat < 2 ^ 32) :
    Tile (c.position + bias.toNat) (c.limit + bias.toNat) headers ∧
      ∀ header ∈ headers, Fits inTypes header := by
  induction h with
  | done hend => exact ⟨congrArg (· + bias.toNat) (by omega), by simp⟩
  | @next c after header rest hmore hstep hrest ih =>
    obtain ⟨⟨stop, hafter, hstop⟩, first, hfirst, hfirst', hplaced⟩ := read_placed hstep
    subst hafter
    simp only at hfirst' hplaced
    obtain ⟨htile, hfits⟩ := ih hstop hlimit
    have hoffset := toNat_ofNat_add c.position bias (by omega)
    have hfirstEntry := toNat_ofNat_add first bias (by omega)
    have hstop' := toNat_ofNat_add stop bias (by omega)
    rw [← hplaced.offset_eq] at hoffset
    rw [← hplaced.firstEntry_eq] at hfirstEntry
    rw [← hplaced.stop_eq] at hstop'
    refine ⟨⟨hoffset, by omega, ?_⟩, List.forall_mem_cons.mpr ⟨?_, hfits⟩⟩
    · rw [hstop']
      exact htile
    · refine ⟨hplaced.inTypes_eq, UInt32.lt_iff_toNat_lt.mpr ?_, UInt32.le_iff_toNat_le.mpr ?_⟩
      · omega
      · omega

theorem steps_of_readAll {region : String} {bytes : Bytes} {bias : UInt32} {inTypes : Bool}
    {headers : List UnitHeader} (h : readAll region bytes bias inTypes = .ok headers) :
    Steps (read bias inTypes) (.place region bytes 0) headers := by
  refine steps_of_ofCursor (fun c header after hread => ?_) h
  obtain ⟨⟨stop, rfl, -⟩, first, hfirst, hstop, -⟩ := read_placed hread
  exact ⟨rfl, by simp only at hstop ⊢; omega⟩

theorem readAll_tile {region : String} {bytes : Bytes} {bias : UInt32} {inTypes : Bool}
    {headers : List UnitHeader} (h : readAll region bytes bias inTypes = .ok headers)
    (hsize : bytes.size + bias.toNat < 2 ^ 32) :
    Tile bias.toNat (bytes.size + bias.toNat) headers ∧ ∀ header ∈ headers, Fits inTypes header := by
  have htile := tile_of_steps (steps_of_readAll h) (Nat.zero_le _) hsize
  rwa [show (Cursor.place region bytes 0).position = 0 from rfl, Nat.zero_add] at htile

end UnitHeader

/-! ## The headers of both sections -/

namespace Sections

/-- A unit lies in its own section, and its entries behind its header. -/
structure Holds (sections : Sections) (header : UnitHeader) : Prop where
  offset_lt : header.offset < header.firstEntry
  firstEntry_le : header.firstEntry ≤ header.stop
  bounds : if header.inTypes then sections.info.size ≤ header.offset.toNat
    else header.stop.toNat ≤ sections.info.size

theorem unitHeaders_eq_ok_iff {sections : Sections} {headers : List UnitHeader} :
    sections.unitHeaders = .ok headers ↔ sections.info.size < 2 ^ 32 ∧
      ∃ info, UnitHeader.readAll ".debug_info" sections.info 0 false = .ok info ∧
        ∃ types, UnitHeader.readAll ".debug_types" sections.types (UInt32.ofNat sections.info.size) true = .ok types ∧
          info ++ types = headers := by
  simp only [unitHeaders, guard_eq_ok_iff, Nat.not_le, bind_eq_ok_iff, pure_eq_ok_iff]

theorem unitHeaders_tile {sections : Sections} {headers : List UnitHeader}
    (h : sections.unitHeaders = .ok headers) (hspace : sections.space.size < 2 ^ 32) :
    UnitHeader.Tile 0 sections.space.size headers ∧ ∀ header ∈ headers, sections.Holds header := by
  rw [size_space] at hspace ⊢
  obtain ⟨-, info, hinfo, types, htypes, rfl⟩ := unitHeaders_eq_ok_iff.mp h
  have hbias : (UInt32.ofNat sections.info.size).toNat = sections.info.size :=
    UInt32.toNat_ofNat_of_lt' (by rw [UInt32.size]; omega)
  obtain ⟨hinfoTile, hinfoFits⟩ := UnitHeader.readAll_tile hinfo (by simpa using by omega)
  obtain ⟨htypesTile, htypesFits⟩ := UnitHeader.readAll_tile htypes (by omega)
  rw [hbias, Nat.add_comm] at htypesTile
  refine ⟨hinfoTile.append htypesTile, fun header hmem => ?_⟩
  rcases List.mem_append.mp hmem with hmem | hmem
  · have hfits := hinfoFits header hmem
    refine ⟨hfits.offset_lt, hfits.firstEntry_le, ?_⟩
    rw [hfits.inTypes_eq]
    exact (hinfoTile.bounds.2 header hmem).2
  · have hfits := htypesFits header hmem
    refine ⟨hfits.offset_lt, hfits.firstEntry_le, ?_⟩
    rw [hfits.inTypes_eq]
    exact (htypesTile.bounds.2 header hmem).1

/-- The bytes of a unit's entries are the same in the shared space and in the unit's own section. -/
theorem unitBytes_eq {sections : Sections} {header : UnitHeader} (h : sections.Holds header)
    (hspace : sections.space.size < 2 ^ 32) {region : String} {bytes : Bytes} {bias : UInt32}
    (hsection : sections.unitSection header.inTypes = (region, bytes, bias)) :
    sections.space.extract header.firstEntry.toNat header.stop.toNat =
        bytes.extract (header.firstEntry - bias).toNat (header.stop - bias).toNat ∧
      bias ≤ header.firstEntry := by
  have hoffset := UInt32.lt_iff_toNat_lt.mp h.offset_lt
  have hfirst := UInt32.le_iff_toNat_le.mp h.firstEntry_le
  have hbounds := h.bounds
  rw [size_space] at hspace
  unfold unitSection at hsection
  unfold space
  rw [Array.extract_append]
  split at hsection
  · rename_i hin
    cases hsection
    rw [if_pos hin] at hbounds
    have hbias : (UInt32.ofNat sections.info.size).toNat = sections.info.size :=
      UInt32.toNat_ofNat_of_lt' (by rw [UInt32.size]; omega)
    have hle : UInt32.ofNat sections.info.size ≤ header.firstEntry := by
      rw [UInt32.le_iff_toNat_le]
      omega
    refine ⟨?_, hle⟩
    rw [UInt32.toNat_sub_of_le _ _ hle,
      UInt32.toNat_sub_of_le _ _ (UInt32.le_trans hle h.firstEntry_le), hbias,
        Array.extract_empty_of_size_le_start (by omega), Array.empty_append]
  · rename_i hin
    cases hsection
    rw [if_neg hin] at hbounds
    have hback : sections.types.extract (header.firstEntry.toNat - sections.info.size)
        (header.stop.toNat - sections.info.size) = #[] :=
      Array.extract_empty_of_stop_le_start (by omega)
    refine ⟨?_, UInt32.zero_le⟩
    rw [UInt32.sub_zero, UInt32.sub_zero, hback, Array.append_empty]

end Sections

end FirmwareDebug
