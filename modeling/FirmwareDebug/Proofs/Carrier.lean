import FirmwareDebug.Proofs.Keeps
import FirmwareDebug.SourceLine

/-!
# Attributes that an origin carries

An attribute that is found through a chain of origins belongs to the entry that carries it, which may lie
in another unit. The walk of the chain gives the value only, so names and files are looked up in the tables
of the unit where the walk began.
-/

namespace FirmwareDebug.DebugInfo

variable {info : DebugInfo} {name : AttributeName} {offset carrier : UInt32} {value : AttributeValue}

/-- The first entry with an attribute on a chain of origins that has at most `steps` entries. -/
inductive Carries (info : DebugInfo) (name : AttributeName) :
    (steps : Nat) → (offset carrier : UInt32) → AttributeValue → Prop
  | own {steps offset value} (hvalue : info.attribute? offset name = .ok (some value)) :
      Carries info name (steps + 1) offset offset value
  | origin {steps offset origin carrier value} (hnone : info.attribute? offset name = .ok none)
      (horigin : info.origin? offset = .ok (some origin)) (hother : origin ≠ offset)
      (rest : Carries info name steps origin carrier value) : Carries info name (steps + 1) offset carrier value

theorem Carries.attribute {steps : Nat} (h : info.Carries name steps offset carrier value) :
    info.attribute? carrier name = .ok (some value) := by
  induction h with
  | own hvalue => exact hvalue
  | origin hnone horigin hother rest ih => exact ih

theorem originAttributeFor_iff {steps : Nat} : info.originAttributeFor name steps offset = .ok (some value) ↔
    ∃ carrier, info.Carries name steps offset carrier value := by
  constructor
  · intro h
    induction steps generalizing offset with
    | zero => cases h
    | succ steps ih =>
      obtain ⟨found, hfound, h⟩ := ok_of_bind h
      cases found with
      | some found =>
        cases h
        exact ⟨offset, .own hfound⟩
      | none =>
        obtain ⟨origin, horigin, h⟩ := ok_of_bind h
        cases origin with
        | none => cases h
        | some origin =>
          dsimp only at h
          split at h
          · cases h
          case isFalse hother =>
            obtain ⟨carrier, hcarrier⟩ := ih h
            exact ⟨carrier, .origin hfound horigin hother hcarrier⟩
  · rintro ⟨carrier, h⟩
    induction h with
    | own hvalue =>
      rw [originAttributeFor, hvalue]
      rfl
    | origin hnone horigin hother rest ih =>
      rw [originAttributeFor, hnone, ← ih]
      simp only [horigin, bind, Except.bind, if_neg hother]

theorem Carries.originAttribute (h : info.Carries name maxOrigins offset carrier value) :
    info.originAttribute offset name = .ok (some value) := originAttributeFor_iff.mpr ⟨carrier, h⟩

/-! ## The units of a chain -/

theorem unit_of_attribute (h : info.attribute? offset name = .ok (some value)) :
    ∃ unit, info.unitAt offset = .ok unit := by
  obtain ⟨abbreviation, -, h⟩ := ok_of_bind h
  split at h
  · cases h
  · obtain ⟨unit, hunit, -⟩ := ok_of_bind h
    exact ⟨unit, hunit⟩

theorem unit_of_reference {target : UInt32} (h : info.reference? offset name = .ok (some target)) :
    ∃ unit, info.unitAt offset = .ok unit := by
  obtain ⟨value, hvalue, h⟩ := ok_of_bind h
  cases value with
  | none => cases h
  | some value => exact unit_of_attribute hvalue

theorem unit_of_origin {origin : UInt32} (h : info.origin? offset = .ok (some origin)) :
    ∃ unit, info.unitAt offset = .ok unit := by
  obtain ⟨abstract, habstract, h⟩ := ok_of_bind h
  cases abstract with
  | some abstract => exact unit_of_reference habstract
  | none => exact unit_of_reference h

theorem Carries.unit {steps : Nat} (h : info.Carries name steps offset carrier value) :
    ∃ unit, info.unitAt offset = .ok unit := by
  cases h with
  | own hvalue => exact unit_of_attribute hvalue
  | origin hnone horigin hother rest => exact unit_of_origin horigin

/-! ## What the values stand for -/

/-- The path of a file by the line table of a unit. -/
def pathIn (info : DebugInfo) (unit : UnitSummary) (file : UInt64) : Except Fault (Option String) := do
  return (← info.lineTable unit).map fun table => pathOrUnknown table file.toUInt32

theorem textOf_eq {sections : Sections} {bases bases' : UnitBases} (h : ∀ index, value ≠ .textIndex index) :
    sections.textOf bases value = sections.textOf bases' value := by
  cases value with
  | textIndex index => exact absurd rfl (h index)
  | _ => rfl

theorem nameOf_of_carries {unit : UnitSummary} (h : info.Carries .name maxOrigins offset carrier value)
    (hunit : info.unitAt offset = .ok unit) : info.nameOf offset = info.sections.textOf unit.bases value := by
  rw [nameOf, h.originAttribute]
  show (info.unitAt offset >>= fun _ => _) = _
  rw [hunit]
  rfl

theorem text_of_attribute {unit : UnitSummary} (h : info.attribute? carrier name = .ok (some value))
    (hunit : info.unitAt carrier = .ok unit) : info.text? carrier name = info.sections.textOf unit.bases value := by
  rw [text?, h]
  show (info.unitAt carrier >>= fun _ => _) = _
  rw [hunit]
  rfl

theorem file_of_carries {unit : UnitSummary} {source : SourceLine}
    (h : info.Carries .declarationFile maxOrigins offset carrier value)
    (hunit : info.unitAt offset = .ok unit) (hsource : info.declarationOf offset = .ok (some source)) :
    ∃ file, value.constant? = some file ∧ info.pathIn unit file = .ok (some source.file) := by
  have hfile : info.originConstant offset .declarationFile = .ok value.constant? := by
    rw [originConstant, h.originAttribute]
    rfl
  obtain ⟨file, hconstant, hsource⟩ := ok_of_bind hsource
  cases hfile.symm.trans hconstant
  obtain ⟨line, -, hsource⟩ := ok_of_bind hsource
  split at hsource
  case h_1 file line hvalue =>
    refine ⟨file, hvalue, ?_⟩
    simp only [bind_eq_ok_iff, pure_eq_ok_iff, Option.map_eq_some_iff] at hsource
    obtain ⟨column, -, own, hown, table, htable, found, rfl, rfl⟩ := hsource
    cases hown.symm.trans hunit
    rw [pathIn, htable]
    rfl
  case h_2 => cases hsource

/-! ## The unit that is asked and the unit that carries -/

/-- What an entry takes from its origins is read with the tables of the unit that carries it. -/
structure ReadsByCarrier (info : DebugInfo) (offset : UInt32) : Prop where
  name : ∀ carrier value, info.Carries .name maxOrigins offset carrier value →
    info.nameOf offset = info.text? carrier .name
  file : ∀ carrier value unit source, info.Carries .declarationFile maxOrigins offset carrier value →
    info.unitAt carrier = .ok unit → info.declarationOf offset = .ok (some source) →
      ∃ file, value.constant? = some file ∧ info.pathIn unit file = .ok (some source.file)

/--
Names and files are looked up in the tables of the unit that was asked. That is the same as in those of the
unit that carries them as long as the number of a string stands for the same string in both, and the number
of a file for the same path.
-/
theorem readsByCarrier_iff (info : DebugInfo) (offset : UInt32) : info.ReadsByCarrier offset ↔
    (∀ carrier index own other, info.Carries .name maxOrigins offset carrier (.textIndex index) →
      info.unitAt offset = .ok own → info.unitAt carrier = .ok other →
        info.sections.textOf own.bases (.textIndex index) = info.sections.textOf other.bases (.textIndex index)) ∧
    (∀ carrier value own other file source, info.Carries .declarationFile maxOrigins offset carrier value →
      info.unitAt offset = .ok own → info.unitAt carrier = .ok other →
      info.declarationOf offset = .ok (some source) → value.constant? = some file →
        info.pathIn own file = info.pathIn other file) := by
  constructor
  · rintro ⟨hname, hfile⟩
    constructor
    · intro carrier index own other h hown hother
      rw [← nameOf_of_carries h hown, hname carrier _ h, text_of_attribute h.attribute hother]
    · intro carrier value own other file source h hown hother hsource hvalue
      obtain ⟨found, hfound, hpath⟩ := file_of_carries h hown hsource
      obtain ⟨found', hfound', hpath'⟩ := hfile carrier value other source h hother hsource
      cases hvalue.symm.trans hfound
      cases hvalue.symm.trans hfound'
      rw [hpath, hpath']
  · rintro ⟨htext, hpath⟩
    constructor
    · intro carrier value h
      obtain ⟨own, hown⟩ := h.unit
      obtain ⟨other, hother⟩ := unit_of_attribute h.attribute
      rw [nameOf_of_carries h hown, text_of_attribute h.attribute hother]
      -- only the number of a string depends on the unit that it is looked up in
      by_cases hindex : ∃ index, value = .textIndex index
      · obtain ⟨index, rfl⟩ := hindex
        exact htext carrier index own other h hown hother
      · exact textOf_eq fun index heq => hindex ⟨index, heq⟩
    · intro carrier value other source h hother hsource
      obtain ⟨own, hown⟩ := h.unit
      obtain ⟨file, hvalue, hfile⟩ := file_of_carries h hown hsource
      exact ⟨file, hvalue, (hpath carrier value own other file source h hown hother hsource hvalue).symm.trans hfile⟩

/-- Units that share their string offsets and their line table read alike; a chain in one unit always does. -/
theorem readsByCarrier_of_sharedTables
    (h : ∀ name carrier value own other, info.Carries name maxOrigins offset carrier value →
      info.unitAt offset = .ok own → info.unitAt carrier = .ok other →
        own.bases.textOffsets = other.bases.textOffsets ∧ info.lineTable own = info.lineTable other) :
    info.ReadsByCarrier offset := by
  refine (readsByCarrier_iff info offset).mpr ⟨?_, ?_⟩
  · intro carrier index own other hcarries hown hother
    obtain ⟨hbase, -⟩ := h .name carrier _ own other hcarries hown hother
    simp only [Sections.textOf, hbase]
  · intro carrier value own other file source hcarries hown hother _ _
    obtain ⟨-, htable⟩ := h .declarationFile carrier value own other hcarries hown hother
    rw [pathIn, pathIn, htable]

/-- Two units with strings of their own. An entry of the second one has a function of the first one as its origin. -/
def twoTables : Sections where
  info := #[16, 0, 0, 0, 5, 0, 1, 4, 0, 0, 0, 0, 1, 8, 0, 0, 0, 2, 0, 0,
    19, 0, 0, 0, 5, 0, 1, 4, 0, 0, 0, 0, 1, 20, 0, 0, 0, 3, 17, 0, 0, 0, 0]
  abbreviations := #[1, 0x11, 1, 0x72, 0x17, 0, 0, 2, 0x2e, 0, 3, 0x25, 0, 0, 3, 0x2e, 0, 0x31, 0x10, 0, 0, 0]
  textOffsets := #[8, 0, 0, 0, 5, 0, 0, 0, 0, 0, 0, 0, 8, 0, 0, 0, 5, 0, 0, 0, 2, 0, 0, 0]
  text := #[0x61, 0, 0x62, 0]

theorem chain_twoTables : (build twoTables).toOption.any fun info =>
    (info.attribute? 37 .name).toOption = some none ∧ (info.origin? 37).toOption = some (some 17) ∧
      (info.attribute? 17 .name).toOption = some (some (.textIndex 0)) ∧
      (info.nameOf 37).toOption = some (some "b") ∧ (info.text? 17 .name).toOption = some (some "a") := by
  decide +kernel

/-- The function is called `a`, and the entry that takes its name from it is called `b`. -/
theorem not_readsByCarrier_twoTables : ∃ info, build twoTables = .ok info ∧
    info.Carries .name maxOrigins 37 17 (.textIndex 0) ∧ info.nameOf 37 = .ok (some "b") ∧
    info.text? 17 .name = .ok (some "a") ∧ ¬ info.ReadsByCarrier 37 := by
  obtain ⟨info, hinfo, hfacts⟩ := (Option.any_eq_true _ _).mp chain_twoTables
  obtain ⟨hnone, horigin, hvalue, hname, htext⟩ := of_decide_eq_true hfacts
  have hcarries : info.Carries .name maxOrigins 37 17 (.textIndex 0) :=
    .origin (ok_of_toOption hnone) (ok_of_toOption horigin) (by decide) (.own (ok_of_toOption hvalue))
  refine ⟨info, ok_of_toOption hinfo, hcarries, ok_of_toOption hname, ok_of_toOption htext, fun h => ?_⟩
  have hsame := h.name 17 _ hcarries
  rw [ok_of_toOption hname, ok_of_toOption htext] at hsame
  simp at hsame

end FirmwareDebug.DebugInfo
