import FirmwareDebug.Proofs.Keeps
import FirmwareDebug.Scope
import FirmwareDebug.SourceLine

/-!
# Images with the same entries

Two images may have the same entries although they differ in their units. What starts from an entry is the same in both:
its origins, its tree and its addresses.
-/

namespace FirmwareDebug.DebugInfo

variable {info info' : DebugInfo} {offset : UInt32} {name : AttributeName}

/-! ## Offsets without an entry -/

theorem locate_error {e : Fault} (h : info.locate offset = .error e) : e = .notAnEntry offset := by
  unfold EntryIndex.locate at h
  split at h
  · exact (Except.error.inj h).symm
  · split at h
    · cases h
    · exact (Except.error.inj h).symm

theorem unitAt_error {e : Fault} (h : info.unitAt offset = .error e) : e = .notAnEntry offset := by
  unfold unitAt at h
  split at h
  · cases h
  · exact (Except.error.inj h).symm

theorem abbreviation_of_error {e : Fault} (h : info.locate offset = .error e) :
    info.abbreviation offset = .error (.notAnEntry offset) := by
  cases locate_error h
  unfold EntryIndex.abbreviation
  rw [h]
  rfl

theorem attribute?_of_error {e : Fault} (h : info.locate offset = .error e) (name : AttributeName) :
    info.attribute? offset name = .error (.notAnEntry offset) := by
  unfold attribute?
  rw [abbreviation_of_error h]
  rfl

theorem attributes_of_error {e : Fault} (h : info.locate offset = .error e) :
    info.attributes offset = .error (.notAnEntry offset) := by
  unfold attributes
  cases hunit : info.unitAt offset with
  | error f =>
    cases unitAt_error hunit
    rfl
  | ok unit =>
    show info.attributesWith unit.header.encoding offset = _
    unfold EntryIndex.attributesWith
    rw [abbreviation_of_error h]
    rfl

theorem addressesOf_of_error {e : Fault} (h : info.locate offset = .error e) :
    info.addressesOf offset = .error (.notAnEntry offset) := by
  unfold addressesOf
  rw [attributes_of_error h]
  cases hunit : info.unitAt offset with
  | error f =>
    cases unitAt_error hunit
    rfl
  | ok unit => rfl

theorem located_of_attribute? {value : Option AttributeValue} (h : info.attribute? offset name = .ok value) :
    ∃ found, info.locate offset = .ok found := by
  cases hlocate : info.locate offset with
  | error e =>
    rw [attribute?_of_error hlocate] at h
    cases h
  | ok found => exact ⟨found, rfl⟩

/-! ## The same entries -/

/-- Both images have the same entries, which say the same in both. -/
structure SameEntries (info info' : DebugInfo) : Prop where
  entries_eq : info'.entries = info.entries
  sections_eq : ∃ bytes, info'.sections = { info.sections with info := bytes }
  signatures_eq : info'.signatures = info.signatures
  unitAt_eq : ∀ {offset found}, info.locate offset = .ok found → info'.unitAt offset = info.unitAt offset
  attributes_eq : ∀ offset, info'.attributes offset = info.attributes offset
  attribute?_eq : ∀ offset name, info'.attribute? offset name = info.attribute? offset name

namespace SameEntries

theorem locate_eq (h : info.SameEntries info') (offset : UInt32) : info'.locate offset = info.locate offset := by
  unfold EntryIndex.locate EntryIndex.position?
  rw [h.entries_eq]

theorem reference?_eq (h : info.SameEntries info') (offset : UInt32) (name : AttributeName) :
    info'.reference? offset name = info.reference? offset name := by
  unfold reference?
  rw [h.attribute?_eq]
  cases hvalue : info.attribute? offset name with
  | error e => rfl
  | ok value =>
    cases value with
    | none => rfl
    | some value =>
      obtain ⟨found, hfound⟩ := located_of_attribute? hvalue
      have hreferent (unit : UInt32) : info'.referent unit value = info.referent unit value := by
        unfold referent typeOfSignature
        rw [h.signatures_eq]
      simp only [bind, Except.bind, h.unitAt_eq hfound, hreferent]

theorem origin?_eq (h : info.SameEntries info') (offset : UInt32) : info'.origin? offset = info.origin? offset := by
  unfold origin?
  simp only [h.reference?_eq]

theorem originAttributeFor_eq (h : info.SameEntries info') (name : AttributeName) (steps : Nat) (offset : UInt32) :
    info'.originAttributeFor name steps offset = info.originAttributeFor name steps offset := by
  induction steps generalizing offset with
  | zero => rfl
  | succ steps ih =>
    rw [originAttributeFor, originAttributeFor]
    simp only [h.attribute?_eq, h.origin?_eq, ih]

theorem originReferenceFor_eq (h : info.SameEntries info') (name : AttributeName) (steps : Nat) (offset : UInt32) :
    info'.originReferenceFor name steps offset = info.originReferenceFor name steps offset := by
  induction steps generalizing offset with
  | zero => rfl
  | succ steps ih =>
    rw [originReferenceFor, originReferenceFor]
    simp only [h.reference?_eq, ih]

theorem nameOf_eq (h : info.SameEntries info') (offset : UInt32) : info'.nameOf offset = info.nameOf offset := by
  unfold nameOf originAttribute
  rw [h.originAttributeFor_eq]
  cases hvalue : info.originAttributeFor .name maxOrigins offset with
  | error e => rfl
  | ok value =>
    cases value with
    | none => rfl
    | some value =>
      obtain ⟨own, hown, -⟩ := ok_of_bind hvalue
      obtain ⟨found, hfound⟩ := located_of_attribute? hown
      obtain ⟨bytes, hsections⟩ := h.sections_eq
      simp only [bind, Except.bind, h.unitAt_eq hfound, hsections]
      rfl

theorem dataObject_eq (h : info.SameEntries info') (entry : Entry) :
    info'.dataObject entry = info.dataObject entry := by
  unfold dataObject originReference originAttribute
  simp only [h.nameOf_eq, h.originReferenceFor_eq, h.attribute?_eq, h.originAttributeFor_eq]

/-! ## Trees -/

theorem closeAfter_eq (h : info.SameEntries info') (parent : UInt32) (budget opened position : Nat) :
    info'.closeAfter parent budget opened position = info.closeAfter parent budget opened position := by
  induction budget generalizing opened position with
  | zero => rfl
  | succ budget ih =>
    unfold closeAfter
    simp only [h.entries_eq, ih]

theorem passChildren_eq (h : info.SameEntries info') (entry : UInt32) (a : Abbreviation) (position : Nat) :
    info'.passChildren entry a position = info.passChildren entry a position := by
  unfold passChildren siblingPosition EntryIndex.position?
  simp only [h.reference?_eq, h.closeAfter_eq, h.entries_eq]

theorem childrenFrom_eq (h : info.SameEntries info') (budget : Nat) (parent : UInt32) (levels : Option Nat)
    (position : Nat) : info'.childrenFrom budget parent levels position =
      info.childrenFrom budget parent levels position := by
  induction budget generalizing parent levels position with
  | zero => rfl
  | succ budget ih =>
    unfold childrenFrom
    simp only [h.entries_eq, h.passChildren_eq, ih]

theorem treeAt_eq (h : info.SameEntries info') (offset : UInt32) (levels : Option Nat) :
    info'.treeAt offset levels = info.treeAt offset levels := by
  unfold treeAt
  simp only [h.locate_eq, h.passChildren_eq, h.childrenFrom_eq, h.entries_eq]

/-! ## Addresses -/

theorem addressesFrom_eq (h : info.SameEntries info') (bases : UnitBases) (low : Option UInt32)
    (high : Option AttributeValue) (attributes : List Attribute) :
    info'.addressesFrom bases low high attributes = info.addressesFrom bases low high attributes := by
  obtain ⟨bytes, hsections⟩ := h.sections_eq
  induction attributes generalizing low high with
  | nil =>
    unfold addressesFrom
    rw [hsections]
    rfl
  | cons a rest ih =>
    unfold addressesFrom
    simp only [hsections, ih]
    rfl

theorem addressesOf_eq (h : info.SameEntries info') (offset : UInt32) :
    info'.addressesOf offset = info.addressesOf offset := by
  cases hlocate : info.locate offset with
  | error e => rw [addressesOf_of_error hlocate, addressesOf_of_error ((h.locate_eq offset).trans hlocate)]
  | ok found =>
    unfold addressesOf
    simp only [h.unitAt_eq hlocate, h.attributes_eq, h.addressesFrom_eq]

theorem function?_eq (h : info.SameEntries info') (offset : UInt32) :
    info'.function? offset = info.function? offset := by
  unfold function?
  simp only [h.addressesOf_eq, h.nameOf_eq]

theorem functions_eq (h : info.SameEntries info') : info'.functions = info.functions := by
  unfold functions EntryIndex.withTag
  rw [h.entries_eq, funext h.function?_eq]

theorem scopesWithin_eq (h : info.SameEntries info') (pc : UInt32) (budget : Nat) (offset : UInt32) :
    info'.scopesWithin pc budget offset = info.scopesWithin pc budget offset := by
  have hcovers : info'.scopeCovers pc = info.scopeCovers pc := by
    funext entry
    unfold scopeCovers
    simp only [h.addressesOf_eq]
  induction budget generalizing offset with
  | zero => rfl
  | succ budget ih =>
    unfold scopesWithin childrenOf
    simp only [h.treeAt_eq, hcovers, ih]

theorem contextIn_eq (h : info.SameEntries info') (unit : UnitSummary) (pc : UInt32) :
    info'.contextIn unit pc = info.contextIn unit pc := by
  unfold contextIn entryAt EntryIndex.abbreviation
  simp only [h.locate_eq, h.scopesWithin_eq, h.entries_eq]

theorem lineTable_eq (h : info.SameEntries info') (unit : UnitSummary) :
    info'.lineTable unit = info.lineTable unit := by
  obtain ⟨bytes, hsections⟩ := h.sections_eq
  unfold lineTable
  rw [hsections]

theorem staticObjectsOf_eq (h : info.SameEntries info') (unit : UnitSummary) :
    info'.staticObjectsOf unit = info.staticObjectsOf unit := by
  unfold staticObjectsOf
  simp only [h.treeAt_eq, funext h.dataObject_eq]

end SameEntries

end FirmwareDebug.DebugInfo
