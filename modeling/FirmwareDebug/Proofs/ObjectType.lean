import FirmwareDebug.Proofs.Carrier
import FirmwareDebug.Scope

/-!
# The types of objects

An object that leaves its name to an origin leaves it to the entry that it is an instance of, or else to the
declaration that it completes. Its type is looked for on instances only, so that what completes a declaration has
the declared name and no type.
-/

namespace FirmwareDebug.DebugInfo

/-- The first entry on a chain of origins at which something is found, and the entries that are passed on the way. -/
inductive FirstOnChain {α : Type} (info : DebugInfo) (found : UInt32 → Except Fault (Option α)) :
    (passed : List UInt32) → (offset carrier : UInt32) → α → Prop
  | own {offset value} (hvalue : found offset = .ok (some value)) : FirstOnChain info found [] offset offset value
  | origin {passed offset origin carrier value} (hnone : found offset = .ok none)
      (horigin : info.origin? offset = .ok (some origin)) (hother : origin ≠ offset)
      (rest : FirstOnChain info found passed origin carrier value) :
      FirstOnChain info found (offset :: passed) offset carrier value

variable {α : Type} {info : DebugInfo} {found : UInt32 → Except Fault (Option α)} {value value' : α}
  {name : AttributeName} {passed passed' : List UInt32} {offset carrier carrier' target : UInt32}

theorem FirstOnChain.unique (h : info.FirstOnChain found passed offset carrier value)
    (h' : info.FirstOnChain found passed' offset carrier' value') :
    passed = passed' ∧ carrier = carrier' ∧ value = value' := by
  induction h generalizing passed' with
  | own hvalue =>
    cases h' with
    | own hvalue' => exact ⟨rfl, rfl, Option.some.inj (Except.ok.inj (hvalue.symm.trans hvalue'))⟩
    | origin hnone' => cases hvalue.symm.trans hnone'
  | origin hnone horigin hother rest ih =>
    cases h' with
    | own hvalue' => cases hnone.symm.trans hvalue'
    | origin hnone' horigin' hother' rest' =>
      cases horigin.symm.trans horigin'
      obtain ⟨rfl, hrest⟩ := ih rest'
      exact ⟨rfl, hrest⟩

theorem carries_iff_firstOnChain {value : AttributeValue} {steps : Nat} :
    info.Carries name steps offset carrier value ↔
      ∃ passed, info.FirstOnChain (info.attribute? · name) passed offset carrier value ∧ passed.length < steps := by
  constructor
  · intro h
    induction h with
    | own hvalue => exact ⟨[], .own hvalue, Nat.zero_lt_succ _⟩
    | origin hnone horigin hother rest ih =>
      obtain ⟨passed, hpassed, hlength⟩ := ih
      exact ⟨_, .origin hnone horigin hother hpassed, Nat.succ_lt_succ hlength⟩
  · rintro ⟨passed, h, hlength⟩
    induction h generalizing steps with
    | own hvalue =>
      cases steps with
      | zero => cases hlength
      | succ steps => exact .own hvalue
    | origin hnone horigin hother rest ih =>
      cases steps with
      | zero => cases hlength
      | succ steps => exact .origin hnone horigin hother (ih (Nat.lt_of_succ_lt_succ hlength))

theorem nameOf_eq_some_iff {text : String} : info.nameOf offset = .ok (some text) ↔
    ∃ passed carrier value unit, info.FirstOnChain (info.attribute? · .name) passed offset carrier value ∧
      passed.length < maxOrigins ∧ info.unitAt offset = .ok unit ∧
        info.sections.textOf unit.bases value = .ok (some text) := by
  constructor
  · intro h
    obtain ⟨found, hfound, h⟩ := ok_of_bind h
    cases found with
    | none => cases h
    | some value =>
      obtain ⟨carrier, hcarries⟩ := originAttributeFor_iff.mp hfound
      obtain ⟨passed, hfirst, hlength⟩ := carries_iff_firstOnChain.mp hcarries
      obtain ⟨unit, hunit, htext⟩ := ok_of_bind h
      exact ⟨passed, carrier, value, unit, hfirst, hlength, hunit, htext⟩
  · rintro ⟨passed, carrier, value, unit, hfirst, hlength, hunit, htext⟩
    rw [nameOf_of_carries (carries_iff_firstOnChain.mpr ⟨passed, hfirst, hlength⟩) hunit, htext]

/-! ## Chains of instances -/

/-- The entry is an instance of another one. -/
def IsInstance (info : DebugInfo) (offset : UInt32) : Prop :=
  ∃ origin, info.reference? offset .abstractOrigin = .ok (some origin)

theorem origin?_eq_of_instance {origin : UInt32} (h : info.reference? offset .abstractOrigin = .ok (some origin)) :
    info.origin? offset = .ok (some origin) := by
  rw [origin?, h]
  rfl

theorem IsInstance.reference? {origin : UInt32} (h : info.IsInstance offset)
    (horigin : info.origin? offset = .ok (some origin)) :
    info.reference? offset .abstractOrigin = .ok (some origin) := by
  obtain ⟨own, hown⟩ := h
  cases (origin?_eq_of_instance hown).symm.trans horigin
  exact hown

/-- References are looked for on the part of a chain that passes instances only. -/
theorem originReferenceFor_iff {steps : Nat} : info.originReferenceFor name steps offset = .ok (some target) ↔
    ∃ passed carrier, info.FirstOnChain (info.reference? · name) passed offset carrier target ∧
      passed.length < steps ∧ ∀ entry ∈ passed, info.IsInstance entry := by
  constructor
  · intro h
    induction steps generalizing offset with
    | zero => cases h
    | succ steps ih =>
      obtain ⟨own, hown, h⟩ := ok_of_bind h
      cases own with
      | some own =>
        cases h
        exact ⟨[], offset, .own hown, Nat.zero_lt_succ _, nofun⟩
      | none =>
        obtain ⟨origin, horigin, h⟩ := ok_of_bind h
        cases origin with
        | none => cases h
        | some origin =>
          dsimp only at h
          split at h
          · cases h
          case isFalse hother =>
            obtain ⟨passed, carrier, hfirst, hlength, hinstances⟩ := ih h
            exact ⟨offset :: passed, carrier, .origin hown (origin?_eq_of_instance horigin) hother hfirst,
              Nat.succ_lt_succ hlength, List.forall_mem_cons.mpr ⟨⟨origin, horigin⟩, hinstances⟩⟩
  · rintro ⟨passed, carrier, hfirst, hlength, hinstances⟩
    induction hfirst generalizing steps with
    | own hvalue =>
      cases steps with
      | zero => cases hlength
      | succ steps =>
        rw [originReferenceFor, hvalue]
        rfl
    | origin hnone horigin hother rest ih =>
      cases steps with
      | zero => cases hlength
      | succ steps =>
        obtain ⟨hinstance, hinstances⟩ := List.forall_mem_cons.mp hinstances
        rw [originReferenceFor, hnone, ← ih (Nat.lt_of_succ_lt_succ hlength) hinstances]
        simp only [hinstance.reference? horigin, bind, Except.bind, if_neg hother]

/-! ## Objects -/

variable {entry : Entry} {object : DataObject}

/-- The object has the name that is found first on its chain of origins, by the tables of its own unit. -/
def NamedByChain (info : DebugInfo) (object : DataObject) : Prop :=
  ∀ text, object.name = some text ↔ ∃ passed carrier value unit,
    info.FirstOnChain (info.attribute? · .name) passed object.offset carrier value ∧ passed.length < maxOrigins ∧
      info.unitAt object.offset = .ok unit ∧ info.sections.textOf unit.bases value = .ok (some text)

/-- The object has the type that is found first on the chain on which names are looked for. -/
def TypedByChain (info : DebugInfo) (object : DataObject) : Prop :=
  ∀ target, object.type = some target ↔ ∃ passed carrier,
    info.FirstOnChain (info.reference? · .type) passed object.offset carrier target ∧ passed.length < maxOrigins

theorem fields_of_dataObject (h : info.dataObject entry = .ok object) :
    info.nameOf object.offset = .ok object.name ∧ info.originReference object.offset .type = .ok object.type := by
  simp only [dataObject, bind_eq_ok_iff, pure_eq_ok_iff] at h
  obtain ⟨name, hname, type, htype, _, -, _, -, rfl⟩ := h
  exact ⟨hname, htype⟩

theorem namedByChain (h : info.dataObject entry = .ok object) : info.NamedByChain object := by
  intro text
  rw [← nameOf_eq_some_iff, (fields_of_dataObject h).1, Except.ok.injEq]

/--
An object has the first name of its chain. It has the first type of the chain exactly if every entry that is passed on
the way to that type is an instance. Where one of them completes a declaration, the object is left without a type.
-/
theorem typedByChain_iff (h : info.dataObject entry = .ok object) : info.NamedByChain object ∧
    (info.TypedByChain object ↔
      ∀ passed carrier target, info.FirstOnChain (info.reference? · .type) passed object.offset carrier target →
        passed.length < maxOrigins → ∀ entry ∈ passed, info.IsInstance entry) := by
  refine ⟨namedByChain h, ?_⟩
  have htype : ∀ target, object.type = some target ↔
      info.originReference object.offset .type = .ok (some target) := by
    intro target
    rw [(fields_of_dataObject h).2, Except.ok.injEq]
  constructor
  · intro htyped passed carrier target hfirst hlength
    have hfound := (htype target).mp ((htyped target).mpr ⟨passed, carrier, hfirst, hlength⟩)
    obtain ⟨passed', carrier', hfirst', -, hinstances⟩ := originReferenceFor_iff.mp hfound
    obtain ⟨rfl, -⟩ := hfirst.unique hfirst'
    exact hinstances
  · intro hinstances target
    rw [htype, originReference, originReferenceFor_iff]
    constructor
    · rintro ⟨passed, carrier, hfirst, hlength, -⟩
      exact ⟨passed, carrier, hfirst, hlength⟩
    · rintro ⟨passed, carrier, hfirst, hlength⟩
      exact ⟨passed, carrier, hfirst, hlength, hinstances passed carrier target hfirst hlength⟩

/--
The variable `x` is declared as a member of a structure, with a type. Two more variables with places take their names
from there: the one at 27 completes the declaration, and the one at 38 is an instance of it.
-/
def declaredMember : Sections where
  info := #[46, 0, 0, 0, 4, 0, 0, 0, 0, 0, 4, 1, 2, 105, 0, 4, 5, 3, 4, 4, 120, 0, 12, 0, 0, 0, 0,
    5, 19, 0, 0, 0, 5, 3, 0, 16, 0, 32, 6, 19, 0, 0, 0, 5, 3, 4, 16, 0, 32, 0]
  abbreviations := #[1, 0x11, 1, 0, 0, 2, 0x24, 0, 3, 8, 0x0b, 0x0b, 0x3e, 0x0b, 0, 0, 3, 0x13, 1, 0x0b, 0x0b, 0, 0,
    4, 0x34, 0, 3, 8, 0x49, 0x13, 0x3c, 0x19, 0, 0, 5, 0x34, 0, 0x47, 0x13, 2, 0x18, 0, 0,
    6, 0x34, 0, 0x31, 0x13, 2, 0x18, 0, 0, 0]

theorem facts_declaredMember : (build declaredMember).toOption.any fun info =>
    (info.attribute? 27 .name).toOption = some none ∧ (info.reference? 27 .type).toOption = some none ∧
      (info.reference? 27 .abstractOrigin).toOption = some none ∧ (info.origin? 27).toOption = some (some 19) ∧
      (info.attribute? 19 .name).toOption = some (some (.text "x")) ∧
      (info.reference? 19 .type).toOption = some (some 12) ∧
      (info.reference? 38 .type).toOption = some none ∧
      (info.reference? 38 .abstractOrigin).toOption = some (some 19) ∧
      ((info.entryAt 27).bind info.dataObject).toOption.any (fun object => object.offset = 27 ∧
        object.name = some "x" ∧ object.type = none ∧ object.location.isSome) ∧
      ((info.entryAt 38).bind info.dataObject).toOption.any (fun object => object.offset = 38 ∧
        object.name = some "x" ∧ object.type = some 12 ∧ object.location.isSome) := by
  decide +kernel

theorem typedByChain_declaredMember : ∃ info entry object, build declaredMember = .ok info ∧
    info.dataObject entry = .ok object ∧ object.offset = 38 ∧ object.name = some "x" ∧ info.NamedByChain object ∧
    object.type = some 12 ∧ info.TypedByChain object := by
  obtain ⟨info, hinfo, hfacts⟩ := (Option.any_eq_true _ _).mp facts_declaredMember
  obtain ⟨-, -, -, -, -, htype, hnone, hinstance, -, hobject⟩ := of_decide_eq_true hfacts
  obtain ⟨object, hobject, hfields⟩ := (Option.any_eq_true _ _).mp hobject
  obtain ⟨hoffset, hname, hown, -⟩ := of_decide_eq_true hfields
  obtain ⟨entry, -, hobject⟩ := ok_of_bind (ok_of_toOption hobject)
  have hfirst : info.FirstOnChain (info.reference? · .type) [38] 38 19 12 :=
    .origin (ok_of_toOption hnone) (origin?_eq_of_instance (ok_of_toOption hinstance)) (by decide)
      (.own (ok_of_toOption htype))
  obtain ⟨hnamed, htyped⟩ := typedByChain_iff hobject
  refine ⟨info, entry, object, ok_of_toOption hinfo, hobject, hoffset, hname, hnamed, hown, htyped.mpr ?_⟩
  intro passed carrier target hfirst' _
  rw [hoffset] at hfirst'
  obtain ⟨rfl, -⟩ := hfirst.unique hfirst'
  exact List.forall_mem_singleton.mpr ⟨19, ok_of_toOption hinstance⟩

/-- What completes the declaration is called `x` like it, and has no type. -/
theorem not_typedByChain_declaredMember : ∃ info entry object, build declaredMember = .ok info ∧
    info.dataObject entry = .ok object ∧ object.offset = 27 ∧ object.name = some "x" ∧ object.type = none ∧
    info.FirstOnChain (info.attribute? · .name) [27] 27 19 (.text "x") ∧
    info.FirstOnChain (info.reference? · .type) [27] 27 19 12 ∧ ¬ info.TypedByChain object := by
  obtain ⟨info, hinfo, hfacts⟩ := (Option.any_eq_true _ _).mp facts_declaredMember
  obtain ⟨hname, hnone, -, horigin, htext, htype, -, -, hobject, -⟩ := of_decide_eq_true hfacts
  obtain ⟨object, hobject, hfields⟩ := (Option.any_eq_true _ _).mp hobject
  obtain ⟨hoffset, hx, huntyped, -⟩ := of_decide_eq_true hfields
  obtain ⟨entry, -, hobject⟩ := ok_of_bind (ok_of_toOption hobject)
  have hfirst : info.FirstOnChain (info.reference? · .type) [27] 27 19 12 :=
    .origin (ok_of_toOption hnone) (ok_of_toOption horigin) (by decide) (.own (ok_of_toOption htype))
  refine ⟨info, entry, object, ok_of_toOption hinfo, hobject, hoffset, hx, huntyped,
    .origin (ok_of_toOption hname) (ok_of_toOption horigin) (by decide) (.own (ok_of_toOption htext)), hfirst, ?_⟩
  intro htyped
  have htwelve := (htyped 12).mpr ⟨[27], 19, by rw [hoffset]; exact hfirst, by decide⟩
  rw [huntyped] at htwelve
  cases htwelve

end FirmwareDebug.DebugInfo
