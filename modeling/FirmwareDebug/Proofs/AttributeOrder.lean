import FirmwareDebug.Proofs.Portable
import FirmwareDebug.Unit.Summary

/-!
# The order of a root's attributes

What a unit is told by its root does not depend on the order in which the root's attributes are written: each field is
told by the one attribute with its name, and strings, addresses and lists are found with the bases of the whole root,
also where these are written behind them.
-/

namespace FirmwareDebug

open Read EntryIndex

variable {β γ σ : Type} {sections : Sections} {bases : UnitBases} {attributes attributes' : List Attribute}
  {names : List AttributeName} {resolve : AttributeValue → Except Fault (Option β)} {field field' : Option β}

/-! ## What attributes tell -/

/-- An attribute with one of the names sets the field, and every other attribute leaves it as it is. -/
def Attribute.Sets (a : Attribute) (names : List AttributeName)
    (resolve : AttributeValue → Except Fault (Option β)) (old new : Option β) : Prop :=
  if a.name ∈ names then resolve a.value = .ok new else new = old

theorem Attribute.Sets.of_mem {a : Attribute} {old new : Option β} (h : a.Sets names resolve old new)
    (hname : a.name ∈ names) : resolve a.value = .ok new := by
  rwa [Attribute.Sets, if_pos hname] at h

theorem Attribute.Sets.of_not_mem {a : Attribute} {old new : Option β} (h : a.Sets names resolve old new)
    (hname : a.name ∉ names) : new = old := by
  rwa [Attribute.Sets, if_neg hname] at h

/-- The field is what an attribute with one of the names stands for. Without such an attribute it is empty. -/
structure Told (attributes : List Attribute) (names : List AttributeName)
    (resolve : AttributeValue → Except Fault (Option β)) (field : Option β) : Prop where
  told : ∀ a ∈ attributes, a.name ∈ names → resolve a.value = .ok field
  untold : (∀ a ∈ attributes, a.name ∉ names) → field = none

theorem Told.unique (h : Told attributes names resolve field) (h' : Told attributes names resolve field') :
    field = field' := by
  by_cases hnone : ∀ a ∈ attributes, a.name ∉ names
  · rw [h.untold hnone, h'.untold hnone]
  · push Not at hnone
    obtain ⟨a, ha, hname⟩ := hnone
    exact Except.ok.inj ((h.told a ha hname).symm.trans (h'.told a ha hname))

theorem Told.perm (h : Told attributes names resolve field) (hperm : attributes'.Perm attributes) :
    Told attributes' names resolve field where
  told a ha := h.told a (hperm.mem_iff.mp ha)
  untold hnone := h.untold fun a ha => hnone a (hperm.mem_iff.mpr ha)

/-- At most one of the attributes has one of the names. -/
def Once (attributes : List Attribute) (names : List AttributeName) : Prop :=
  attributes.Pairwise fun a b => ¬ (a.name ∈ names ∧ b.name ∈ names)

theorem told_of_foldlM {f : σ → Attribute → Except Fault σ} (get : σ → Option β)
    (hstep : ∀ s a t, f s a = .ok t → a.Sets names resolve (get s) (get t)) (honce : Once attributes names)
    {s t : σ} (hstart : get s = none) (h : attributes.foldlM f s = .ok t) : Told attributes names resolve (get t) := by
  have hrun : (∀ a ∈ attributes, a.name ∈ names → resolve a.value = .ok (get t)) ∧
      ((∀ a ∈ attributes, a.name ∉ names) → get t = get s) := by
    clear hstart
    induction attributes generalizing s with
    | nil =>
      cases h
      exact ⟨nofun, fun _ => rfl⟩
    | cons a rest ih =>
      obtain ⟨middle, hmiddle, h⟩ := ok_of_bind h
      obtain ⟨hfirst, honce⟩ := List.pairwise_cons.mp honce
      obtain ⟨htold, hkept⟩ := ih honce h
      have hset := hstep s a middle hmiddle
      constructor
      · intro b hb hname
        rcases List.mem_cons.mp hb with rfl | hb
        · rw [hset.of_mem hname, hkept fun c hc hother => hfirst c hc ⟨hname, hother⟩]
        · exact htold b hb hname
      · intro hnone
        obtain ⟨ha, hrest⟩ := List.forall_mem_cons.mp hnone
        rw [hkept hrest, hset.of_not_mem ha]
  exact ⟨hrun.1, fun hnone => (hrun.2 hnone).trans hstart⟩

theorem kept_of_foldlM {f : σ → Attribute → Except Fault σ} (get : σ → γ)
    (hstep : ∀ s a t, f s a = .ok t → get t = get s) {s t : σ} (h : attributes.foldlM f s = .ok t) : get t = get s := by
  induction attributes generalizing s with
  | nil =>
    cases h
    rfl
  | cons a rest ih =>
    obtain ⟨middle, hmiddle, h⟩ := ok_of_bind h
    rw [ih h, hstep s a middle hmiddle]

theorem foldlM_ok {f : σ → Attribute → Except Fault σ} (hf : ∀ a ∈ attributes, ∀ s, ∃ t, f s a = .ok t) (s : σ) :
    ∃ t, attributes.foldlM f s = .ok t := by
  induction attributes generalizing s with
  | nil => exact ⟨s, rfl⟩
  | cons a rest ih =>
    obtain ⟨ha, hrest⟩ := List.forall_mem_cons.mp hf
    obtain ⟨middle, hmiddle⟩ := ha s
    obtain ⟨t, ht⟩ := ih hrest middle
    refine ⟨t, ?_⟩
    rw [List.foldlM_cons, hmiddle]
    exact ht

theorem ok_of_foldlM {f : σ → Attribute → Except Fault σ} {s t : σ} (h : attributes.foldlM f s = .ok t) :
    ∀ a ∈ attributes, ∃ s t, f s a = .ok t := by
  induction attributes generalizing s with
  | nil => exact nofun
  | cons a rest ih =>
    obtain ⟨middle, hmiddle, h⟩ := ok_of_bind h
    exact List.forall_mem_cons.mpr ⟨⟨s, middle, hmiddle⟩, ih h⟩

/-- No two attributes tell the same: their names differ, and there is at most one base of addresses. -/
structure Unambiguous (attributes : List Attribute) : Prop where
  distinct : (attributes.map Attribute.name).Nodup
  oneAddressBase : ¬ (AttributeName.addressBase ∈ attributes.map Attribute.name ∧
    AttributeName.gnuAddressBase ∈ attributes.map Attribute.name)

namespace Unambiguous

theorem perm (h : Unambiguous attributes) (hperm : attributes'.Perm attributes) : Unambiguous attributes' where
  distinct := (hperm.map Attribute.name).nodup_iff.mpr h.distinct
  oneAddressBase hboth := h.oneAddressBase
    ⟨(hperm.map Attribute.name).mem_iff.mp hboth.1, (hperm.map Attribute.name).mem_iff.mp hboth.2⟩

theorem once (h : Unambiguous attributes) (name : AttributeName) : Once attributes [name] := by
  refine (List.pairwise_map.mp h.distinct).imp fun {a b} hne hboth => hne ?_
  rw [List.mem_singleton, List.mem_singleton] at hboth
  exact hboth.1.trans hboth.2.symm

theorem once_addressBase (h : Unambiguous attributes) : Once attributes [.addressBase, .gnuAddressBase] := by
  refine (List.pairwise_map.mp h.distinct).imp_of_mem fun {a b} ha hb hne hboth => ?_
  have hmem (c : Attribute) (hc : c ∈ attributes) : c.name ∈ attributes.map Attribute.name := List.mem_map_of_mem hc
  have ha' := hmem a ha
  have hb' := hmem b hb
  simp only [List.mem_cons, List.not_mem_nil, or_false] at hboth
  obtain ⟨hfirst | hfirst, hsecond | hsecond⟩ := hboth
  · exact hne (hfirst.trans hsecond.symm)
  · exact h.oneAddressBase ⟨hfirst ▸ ha', hsecond ▸ hb'⟩
  · exact h.oneAddressBase ⟨hsecond ▸ hb', hfirst ▸ ha'⟩
  · exact hne (hfirst.trans hsecond.symm)

end Unambiguous

namespace UnitSummary

/-! ## Bases -/

/-- What one attribute does to the bases. -/
structure BasesSet (a : Attribute) (old new : UnitBases) : Prop where
  textOffsets : a.Sets [.textOffsetsBase] (fun value => .ok value.sectionOffset?) old.textOffsets new.textOffsets
  addresses : a.Sets [.addressBase, .gnuAddressBase] (fun value => .ok value.sectionOffset?) old.addresses new.addresses
  rangeLists : a.Sets [.rangeListsBase] (fun value => .ok value.sectionOffset?) old.rangeLists new.rangeLists
  locationLists : a.Sets [.locationListsBase] (fun value => .ok value.sectionOffset?) old.locationLists
    new.locationLists
  rest : (new.version, new.addressSize, new.baseAddress) = (old.version, old.addressSize, old.baseAddress)

theorem basesSet_addBase (bases : UnitBases) (a : Attribute) : BasesSet a bases (addBase bases a) := by
  unfold addBase
  split
  case isTrue hname => constructor <;> simp +decide only [Attribute.Sets, hname, if_true, if_false]
  case isFalse htext =>
    split
    case isTrue hname =>
      rcases hname with hname | hname
      all_goals constructor <;> simp +decide only [Attribute.Sets, hname, if_true, if_false]
    case isFalse haddress =>
      split
      case isTrue hname => constructor <;> simp +decide only [Attribute.Sets, hname, if_true, if_false]
      case isFalse hranges =>
        split
        case isTrue hname => constructor <;> simp +decide only [Attribute.Sets, hname, if_true, if_false]
        case isFalse hlocations =>
          constructor <;> simp [Attribute.Sets, htext, not_or.mp haddress, hranges, hlocations]

/-- The bases are told by the root's attributes. -/
structure BasesTold (attributes : List Attribute) (bases : UnitBases) : Prop where
  textOffsets : Told attributes [.textOffsetsBase] (fun value => .ok value.sectionOffset?) bases.textOffsets
  addresses : Told attributes [.addressBase, .gnuAddressBase] (fun value => .ok value.sectionOffset?) bases.addresses
  rangeLists : Told attributes [.rangeListsBase] (fun value => .ok value.sectionOffset?) bases.rangeLists
  locationLists : Told attributes [.locationListsBase] (fun value => .ok value.sectionOffset?) bases.locationLists

/-- The bases that a root's attributes give. -/
def basesOf (header : UnitHeader) (attributes : List Attribute) : UnitBases :=
  attributes.foldl addBase (initialBases header)

theorem basesOf_run (header : UnitHeader) (attributes : List Attribute) :
    attributes.foldlM (fun bases a => Except.ok (ε := Fault) (addBase bases a)) (initialBases header) =
      .ok (basesOf header attributes) := List.foldlM_pure

theorem basesTold_basesOf (hnames : Unambiguous attributes) (header : UnitHeader) :
    BasesTold attributes (basesOf header attributes) := by
  have hrun := basesOf_run header attributes
  have hstep (old : UnitBases) (a : Attribute) (new : UnitBases)
      (h : Except.ok (ε := Fault) (addBase old a) = .ok new) : BasesSet a old new := by
    cases h
    exact basesSet_addBase old a
  constructor
  · exact told_of_foldlM UnitBases.textOffsets (fun s a t h => (hstep s a t h).textOffsets) (hnames.once _) rfl hrun
  · exact told_of_foldlM UnitBases.addresses (fun s a t h => (hstep s a t h).addresses) hnames.once_addressBase rfl hrun
  · exact told_of_foldlM UnitBases.rangeLists (fun s a t h => (hstep s a t h).rangeLists) (hnames.once _) rfl hrun
  · exact told_of_foldlM UnitBases.locationLists (fun s a t h => (hstep s a t h).locationLists) (hnames.once _) rfl hrun

theorem basesOf_perm (hnames : Unambiguous attributes) (hperm : attributes'.Perm attributes) (header : UnitHeader) :
    basesOf header attributes' = basesOf header attributes := by
  have hrest (l : List Attribute) :=
    kept_of_foldlM (fun b : UnitBases => (b.version, b.addressSize, b.baseAddress))
      (fun s a t h => by cases h; exact (basesSet_addBase s a).rest) (basesOf_run header l)
  have hsame := (hrest attributes').trans (hrest attributes).symm
  have htold := basesTold_basesOf hnames header
  have htold' := basesTold_basesOf (hnames.perm hperm) header
  have htext := htold'.textOffsets.unique (htold.textOffsets.perm hperm)
  have haddresses := htold'.addresses.unique (htold.addresses.perm hperm)
  have hranges := htold'.rangeLists.unique (htold.rangeLists.perm hperm)
  have hlocations := htold'.locationLists.unique (htold.locationLists.perm hperm)
  simp only [Prod.mk.injEq] at hsame
  obtain ⟨hversion, hsize, haddress⟩ := hsame
  generalize basesOf header attributes' = bases' at *
  generalize basesOf header attributes = bases at *
  cases bases
  cases bases'
  rw [UnitBases.mk.injEq]
  exact ⟨hversion, hsize, haddress, htext, haddresses, hranges, hlocations⟩

/-! ## The rest of the root -/

/-- What one attribute does to the unit so far. -/
structure DraftSet (sections : Sections) (bases : UnitBases) (a : Attribute) (old new : Draft) : Prop where
  name : a.Sets [.name] (sections.textOf bases) old.unit.name new.unit.name
  compilationDirectory : a.Sets [.compilationDirectory] (sections.textOf bases) old.unit.compilationDirectory
    new.unit.compilationDirectory
  producer : a.Sets [.producer] (sections.textOf bases) old.unit.producer new.unit.producer
  language : a.Sets [.language]
    (fun value => .ok ((value.constant?.filter fun code => code.toNat < 2 ^ 16).map UInt64.toUInt16))
    old.unit.language new.unit.language
  statementList : a.Sets [.statementList] (fun value => .ok value.sectionOffset?) old.unit.statementList
    new.unit.statementList
  low : a.Sets [.lowPc] (sections.addressOf bases) old.low new.low
  high : a.Sets [.highPc] (fun value => .ok (some value)) old.high new.high
  ranges : a.Sets [.ranges] (fun value => .ok (some value)) old.ranges new.ranges
  rest : (new.unit.header, new.unit.tag, new.unit.bases, new.unit.ranges) =
    (old.unit.header, old.unit.tag, old.unit.bases, old.unit.ranges)

theorem draftSet_add {a : Attribute} {draft next : Draft} (h : draft.add sections bases a = .ok next) :
    DraftSet sections bases a draft next := by
  unfold Draft.add at h
  dsimp only at h
  split at h
  case isTrue hname =>
    obtain ⟨text, htext, h⟩ := ok_of_bind h
    cases h
    constructor <;> simp +decide only [Attribute.Sets, hname, htext, if_true, if_false]
  case isFalse hname =>
  split at h
  case isTrue hdirectory =>
    obtain ⟨text, htext, h⟩ := ok_of_bind h
    cases h
    constructor <;> simp +decide only [Attribute.Sets, hdirectory, htext, if_true, if_false]
  case isFalse hdirectory =>
  split at h
  case isTrue hproducer =>
    obtain ⟨text, htext, h⟩ := ok_of_bind h
    cases h
    constructor <;> simp +decide only [Attribute.Sets, hproducer, htext, if_true, if_false]
  case isFalse hproducer =>
  split at h
  case isTrue hlanguage =>
    cases h
    constructor <;> simp +decide only [Attribute.Sets, hlanguage, if_true, if_false]
  case isFalse hlanguage =>
  split at h
  case isTrue hlist =>
    cases h
    constructor <;> simp +decide only [Attribute.Sets, hlist, if_true, if_false]
  case isFalse hlist =>
  split at h
  case isTrue hlow =>
    obtain ⟨address, haddress, h⟩ := ok_of_bind h
    cases h
    constructor <;> simp +decide only [Attribute.Sets, hlow, haddress, if_true, if_false]
  case isFalse hlow =>
  split at h
  case isTrue hhigh =>
    cases h
    constructor <;> simp +decide only [Attribute.Sets, hhigh, if_true, if_false]
  case isFalse hhigh =>
  split at h
  case isTrue hranges =>
    cases h
    constructor <;> simp +decide only [Attribute.Sets, hranges, if_true, if_false]
  case isFalse hranges =>
    cases h
    constructor <;>
      simp only [Attribute.Sets, List.mem_singleton, hname, hdirectory, hproducer, hlanguage, hlist, hlow, hhigh,
        hranges, if_false]

theorem add_ok {a : Attribute} {draft next : Draft} (h : draft.add sections bases a = .ok next) (other : Draft) :
    ∃ next, other.add sections bases a = .ok next := by
  have hset := draftSet_add h
  unfold Draft.add
  dsimp only
  split_ifs with hname hdirectory hproducer hlanguage hlist hlow
  · exact ⟨_, by rw [hset.name.of_mem (List.mem_singleton.mpr hname)]; rfl⟩
  · exact ⟨_, by rw [hset.compilationDirectory.of_mem (List.mem_singleton.mpr hdirectory)]; rfl⟩
  · exact ⟨_, by rw [hset.producer.of_mem (List.mem_singleton.mpr hproducer)]; rfl⟩
  · exact ⟨_, rfl⟩
  · exact ⟨_, rfl⟩
  · exact ⟨_, by rw [hset.low.of_mem (List.mem_singleton.mpr hlow)]; rfl⟩
  · exact ⟨_, rfl⟩
  · exact ⟨_, rfl⟩
  · exact ⟨_, rfl⟩

/-- What the root's attributes tell, with bases that are known. -/
structure DraftTold (sections : Sections) (bases : UnitBases) (attributes : List Attribute) (draft : Draft) :
    Prop where
  name : Told attributes [.name] (sections.textOf bases) draft.unit.name
  compilationDirectory : Told attributes [.compilationDirectory] (sections.textOf bases)
    draft.unit.compilationDirectory
  producer : Told attributes [.producer] (sections.textOf bases) draft.unit.producer
  language : Told attributes [.language]
    (fun value => .ok ((value.constant?.filter fun code => code.toNat < 2 ^ 16).map UInt64.toUInt16))
    draft.unit.language
  statementList : Told attributes [.statementList] (fun value => .ok value.sectionOffset?) draft.unit.statementList
  low : Told attributes [.lowPc] (sections.addressOf bases) draft.low
  high : Told attributes [.highPc] (fun value => .ok (some value)) draft.high
  ranges : Told attributes [.ranges] (fun value => .ok (some value)) draft.ranges

variable {header : UnitHeader} {tag : Tag} {draft : Draft}

/-- The draft that every root begins with. -/
def emptyDraft (header : UnitHeader) (tag : Tag) : Draft := { unit := { header, tag, bases := initialBases header } }

theorem draftTold_of_run (hnames : Unambiguous attributes)
    (h : attributes.foldlM (Draft.add sections bases) (emptyDraft header tag) = .ok draft) :
    DraftTold sections bases attributes draft := by
  constructor
  · exact told_of_foldlM (fun d : Draft => d.unit.name) (fun s a t h => (draftSet_add h).name) (hnames.once _) rfl h
  · exact told_of_foldlM (fun d : Draft => d.unit.compilationDirectory)
      (fun s a t h => (draftSet_add h).compilationDirectory) (hnames.once _) rfl h
  · exact told_of_foldlM (fun d : Draft => d.unit.producer) (fun s a t h => (draftSet_add h).producer)
      (hnames.once _) rfl h
  · exact told_of_foldlM (fun d : Draft => d.unit.language) (fun s a t h => (draftSet_add h).language)
      (hnames.once _) rfl h
  · exact told_of_foldlM (fun d : Draft => d.unit.statementList) (fun s a t h => (draftSet_add h).statementList)
      (hnames.once _) rfl h
  · exact told_of_foldlM Draft.low (fun s a t h => (draftSet_add h).low) (hnames.once _) rfl h
  · exact told_of_foldlM Draft.high (fun s a t h => (draftSet_add h).high) (hnames.once _) rfl h
  · exact told_of_foldlM Draft.ranges (fun s a t h => (draftSet_add h).ranges) (hnames.once _) rfl h

theorem run_perm (hnames : Unambiguous attributes) (hperm : attributes'.Perm attributes)
    (h : attributes.foldlM (Draft.add sections bases) (emptyDraft header tag) = .ok draft) :
    attributes'.foldlM (Draft.add sections bases) (emptyDraft header tag) = .ok draft := by
  obtain ⟨draft', h'⟩ : ∃ draft',
      attributes'.foldlM (Draft.add sections bases) (emptyDraft header tag) = .ok draft' := by
    refine foldlM_ok (fun a ha other => ?_) _
    obtain ⟨old, new, hadd⟩ := ok_of_foldlM h a (hperm.mem_iff.mp ha)
    exact add_ok hadd other
  have hrest {l : List Attribute} {d : Draft}
      (hrun : l.foldlM (Draft.add sections bases) (emptyDraft header tag) = .ok d) :=
    kept_of_foldlM (fun d : Draft => (d.unit.header, d.unit.tag, d.unit.bases, d.unit.ranges))
      (fun s a t h => (draftSet_add h).rest) hrun
  have hsame := (hrest h').trans (hrest h).symm
  have htold := draftTold_of_run hnames h
  have htold' := draftTold_of_run (hnames.perm hperm) h'
  have hname := htold'.name.unique (htold.name.perm hperm)
  have hdirectory := htold'.compilationDirectory.unique (htold.compilationDirectory.perm hperm)
  have hproducer := htold'.producer.unique (htold.producer.perm hperm)
  have hlanguage := htold'.language.unique (htold.language.perm hperm)
  have hlist := htold'.statementList.unique (htold.statementList.perm hperm)
  have hlow := htold'.low.unique (htold.low.perm hperm)
  have hhigh := htold'.high.unique (htold.high.perm hperm)
  have hranges := htold'.ranges.unique (htold.ranges.perm hperm)
  simp only [Prod.mk.injEq] at hsame
  obtain ⟨hheader, htag, hbases, haddresses⟩ := hsame
  rw [h']
  obtain ⟨unit, low, high, ranges⟩ := draft
  obtain ⟨unit', low', high', ranges'⟩ := draft'
  cases unit
  cases unit'
  rw [Except.ok.injEq, Draft.mk.injEq, UnitSummary.mk.injEq]
  exact ⟨⟨hheader, htag, hname, hdirectory, hproducer, hlanguage, hlist, hbases, haddresses⟩, hlow, hhigh, hranges⟩

/-! ## The whole root -/

/-- The unit of a root with a tag and some attributes. -/
def ofRoot (sections : Sections) (header : UnitHeader) (tag : Tag) (attributes : List Attribute) :
    Except Fault UnitSummary := do
  let bases := basesOf header attributes
  let draft ← attributes.foldlM (Draft.add sections bases) (emptyDraft header tag)
  let bases := { bases with baseAddress := draft.low }
  return { draft.unit with bases, ranges := ← draft.addresses sections bases }

theorem build_eq_ofRoot {index : EntryIndex} {position : Nat} {a : Abbreviation}
    (hentries : header.firstEntry < header.stop) (h : index.locate header.firstEntry = .ok (position, a)) :
    build index header =
      index.attributesWith header.encoding header.firstEntry >>= ofRoot index.sections header a.tag := by
  unfold build
  rw [if_neg (UInt32.not_le.mpr hentries), h]
  rfl

theorem ofRoot_perm {unit : UnitSummary} (hnames : Unambiguous attributes) (hperm : attributes'.Perm attributes)
    (h : ofRoot sections header tag attributes = .ok unit) : ofRoot sections header tag attributes' = .ok unit := by
  obtain ⟨draft, hrun, h⟩ := ok_of_bind h
  rw [ofRoot, basesOf_perm hnames hperm]
  show (attributes'.foldlM _ _ >>= fun _ => _) = _
  rw [run_perm hnames hperm hrun]
  exact h

/-- The unit says what its root's attributes tell, and what they name is found with the bases of the whole root. -/
structure SaidBy (unit : UnitSummary) (sections : Sections) (attributes : List Attribute) : Prop where
  bases : BasesTold attributes unit.bases
  name : Told attributes [.name] (sections.textOf unit.bases) unit.name
  compilationDirectory : Told attributes [.compilationDirectory] (sections.textOf unit.bases) unit.compilationDirectory
  producer : Told attributes [.producer] (sections.textOf unit.bases) unit.producer
  language : Told attributes [.language]
    (fun value => .ok ((value.constant?.filter fun code => code.toNat < 2 ^ 16).map UInt64.toUInt16)) unit.language
  statementList : Told attributes [.statementList] (fun value => .ok value.sectionOffset?) unit.statementList
  /-- Lists of ranges count from the first address. -/
  baseAddress : Told attributes [.lowPc] (sections.addressOf unit.bases) unit.bases.baseAddress
  ranges : ∃ high ranges, Told attributes [.highPc] (fun value => .ok (some value)) high ∧
    Told attributes [.ranges] (fun value => .ok (some value)) ranges ∧
      Draft.addresses sections unit.bases { unit, low := unit.bases.baseAddress, high, ranges } = .ok unit.ranges

theorem textOf_baseAddress (sections : Sections) (bases : UnitBases) (low : Option UInt32) :
    sections.textOf { bases with baseAddress := low } = sections.textOf bases := by
  funext value
  cases value <;> rfl

theorem addressOf_baseAddress (sections : Sections) (bases : UnitBases) (low : Option UInt32) :
    sections.addressOf { bases with baseAddress := low } = sections.addressOf bases := by
  funext value
  cases value <;> rfl

theorem saidBy_of_ofRoot {unit : UnitSummary} (hnames : Unambiguous attributes)
    (h : ofRoot sections header tag attributes = .ok unit) : unit.SaidBy sections attributes := by
  simp only [ofRoot, bind_eq_ok_iff, pure_eq_ok_iff] at h
  obtain ⟨draft, hrun, ranges, hranges, rfl⟩ := h
  have htold := draftTold_of_run hnames hrun
  have hbases := basesTold_basesOf hnames header
  constructor
  · exact ⟨hbases.textOffsets, hbases.addresses, hbases.rangeLists, hbases.locationLists⟩
  · rw [textOf_baseAddress]
    exact htold.name
  · rw [textOf_baseAddress]
    exact htold.compilationDirectory
  · rw [textOf_baseAddress]
    exact htold.producer
  · exact htold.language
  · exact htold.statementList
  · rw [addressOf_baseAddress]
    exact htold.low
  · exact ⟨draft.high, draft.ranges, htold.high, htold.ranges, hranges⟩

end UnitSummary

/-! ## How a root is written -/

/-- An attribute as it is written: its place in the abbreviation, its bytes, and the value that is read from them. -/
structure WrittenAttribute (encoding : Encoding) where
  spec : AttributeSpec
  bytes : List UInt8
  value : AttributeValue
  yields : Yields (spec.form.read encoding spec.implicit) bytes value

variable {encoding : Encoding}

def WrittenAttribute.attribute (written : WrittenAttribute encoding) : Attribute := ⟨written.spec.name, written.value⟩

theorem yields_readValues (written : List (WrittenAttribute encoding)) :
    Yields (readValues encoding (written.map (·.spec))) (written.map (·.bytes)).flatten
      (written.map (·.attribute)) := by
  induction written with
  | nil => exact .pure []
  | cons first rest ih =>
    rw [List.map_cons, List.map_cons, List.map_cons, List.flatten_cons]
    exact first.yields.bind (ih.map _)

theorem takes_readValues (specs : List AttributeSpec) : Takes (readValues encoding specs) fun taken values =>
    ∃ written : List (WrittenAttribute encoding), written.map (·.spec) = specs ∧
      (written.map (·.bytes)).flatten = taken ∧ written.map (·.attribute) = values := by
  induction specs with
  | nil => exact .pure ⟨[], rfl, rfl, rfl⟩
  | cons spec specs ih =>
    have hportable : Portable (spec.form.read encoding spec.implicit) := inferInstance
    refine hportable.takes.bind fun front value hfront => ih.bind fun back values hback => .pure ?_
    obtain ⟨written, rfl, rfl, rfl⟩ := hback
    exact ⟨⟨spec, front, value, hfront⟩ :: written, rfl, by simp, rfl⟩

/-- The root of a unit is an entry with these attributes, whose values are written behind its code. -/
structure EntryIndex.RootWritten (index : EntryIndex) (header : UnitHeader) (tag : Tag)
    (written : List (WrittenAttribute header.encoding)) : Prop where
  nonempty : header.firstEntry < header.stop
  located : ∃ position a, index.locate header.firstEntry = .ok (position, a) ∧ a.tag = tag ∧
    a.attributes = written.map (·.spec)
  bytes : ∃ code number behind, IsUnsigned code number ∧
    (index.sections.cursorAt header.firstEntry).Holds (code ++ ((written.map (·.bytes)).flatten ++ behind))

/-- The sections agree in all that the attributes of a root may name. -/
def Sections.SharesTables (sections sections' : Sections) : Prop :=
  ∃ info types abbreviations, sections' = { sections with info, types, abbreviations }

/-- The unit has an entry to begin with. -/
def EntryIndex.HasRoot (index : EntryIndex) (header : UnitHeader) : Prop :=
  header.firstEntry < header.stop ∧ ∃ found, index.locate header.firstEntry = .ok found

namespace UnitSummary

variable {index : EntryIndex} {header : UnitHeader} {tag : Tag} {unit : UnitSummary}

theorem build_of_rootWritten {written : List (WrittenAttribute header.encoding)}
    (h : index.RootWritten header tag written) :
    build index header = ofRoot index.sections header tag (written.map (·.attribute)) := by
  obtain ⟨position, a, hlocate, rfl, hspecs⟩ := h.located
  obtain ⟨code, number, behind, hcode, hbytes⟩ := h.bytes
  have hread : Yields (do discard unsigned; readValues header.encoding (written.map (·.spec)) : Read _) _ _ :=
    (yields_of_isUnsigned hcode).discard.bind (yields_readValues written)
  have hvalues : index.attributesWith header.encoding header.firstEntry = .ok (written.map (·.attribute)) := by
    rw [attributesWith, abbreviation, hlocate]
    show index.readAt header.firstEntry (readValues header.encoding a.attributes) = _
    rw [hspecs, readAt, eval, hread _ behind (by rwa [List.append_assoc])]
  rw [build_eq_ofRoot h.nonempty hlocate, hvalues]
  rfl

theorem exists_rootWritten (hroot : index.HasRoot header) (h : build index header = .ok unit) :
    ∃ written, index.RootWritten header unit.tag written := by
  obtain ⟨hentries, ⟨position, a⟩, hlocate⟩ := hroot
  rw [build_eq_ofRoot hentries hlocate] at h
  obtain ⟨attributes, hattributes, h⟩ := ok_of_bind h
  have htag : unit.tag = a.tag := by
    simp only [ofRoot, bind_eq_ok_iff, pure_eq_ok_iff] at h
    obtain ⟨draft, hrun, ranges, -, rfl⟩ := h
    exact congrArg (fun kept => kept.2.1) (kept_of_foldlM (fun d : Draft => (d.unit.header, d.unit.tag, d.unit.bases,
      d.unit.ranges)) (fun s a t h => (draftSet_add h).rest) hrun)
  rw [attributesWith, abbreviation, hlocate] at hattributes
  obtain ⟨next, hread⟩ := eval_eq_ok_iff.mp hattributes
  have htakes : Takes (do discard unsigned; readValues header.encoding a.attributes : Read _) fun taken _ =>
      ∃ code number, ∃ written : List (WrittenAttribute header.encoding), IsUnsigned code number ∧
        written.map (·.spec) = a.attributes ∧ taken = code ++ (written.map (·.bytes)).flatten := by
    have hcodes : Takes (discard unsigned) fun taken _ => ∃ number, IsUnsigned taken number :=
      takes_unsigned.discard fun _ number hcode => ⟨number, hcode⟩
    refine hcodes.bind fun code _ hcode => (takes_readValues a.attributes).mono fun back values hback => ?_
    obtain ⟨number, hcode⟩ := hcode
    obtain ⟨written, hspecs, hbytes, -⟩ := hback
    exact ⟨code, number, written, hcode, hspecs, by rw [hbytes]⟩
  obtain ⟨hahead, code, number, written, hcode, hspecs, htaken⟩ := htakes _ _ _ hread
  have hne : (index.sections.cursorAt header.firstEntry).upTo next ≠ [] := by
    rw [htaken]
    exact List.append_ne_nil_of_left_ne_nil (ne_nil_of_isUnsigned hcode) _
  have hholds := (hahead.holds hne).1
  rw [htaken, List.append_assoc] at hholds
  exact ⟨written, hentries, ⟨position, a, hlocate, htag.symm, hspecs.symm⟩, code, number, _, hcode, hholds⟩

theorem ofRoot_sharesTables {sections' : Sections} (h : sections.SharesTables sections') :
    ofRoot sections' = ofRoot sections := by
  obtain ⟨info, types, abbreviations, rfl⟩ := h
  rfl

/--
The root of a unit that can be built is written as one attribute after the other. Where no two of them tell the same,
the unit says what they tell, each found with the bases of the whole root; and wherever they are written in another
order, the same unit is built.
-/
theorem build_anyOrder (hroot : index.HasRoot header) (h : build index header = .ok unit) :
    (∃ written, index.RootWritten header unit.tag written) ∧
      ∀ written, index.RootWritten header unit.tag written → Unambiguous (written.map (·.attribute)) →
        unit.SaidBy index.sections (written.map (·.attribute)) ∧
          ∀ index' : EntryIndex, ∀ written', written'.Perm written → index'.RootWritten header unit.tag written' →
            index.sections.SharesTables index'.sections → build index' header = .ok unit := by
  refine ⟨exists_rootWritten hroot h, fun written hwritten hnames => ?_⟩
  rw [build_of_rootWritten hwritten] at h
  refine ⟨saidBy_of_ofRoot hnames h, fun index' written' hperm hwritten' htables => ?_⟩
  rw [build_of_rootWritten hwritten', ofRoot_sharesTables htables]
  exact ofRoot_perm hnames (hperm.map _) h

/-- A unit of 24 bytes whose root has the number of its name and the number of its first address before their bases. -/
def numbersFirst : Sections where
  info := #[20, 0, 0, 0, 5, 0, 1, 4, 0, 0, 0, 0, 1, 0, 0, 16, 8, 0, 0, 0, 8, 0, 0, 0]
  abbreviations := #[1, 0x11, 0, 3, 0x25, 0x11, 0x29, 0x12, 0x0b, 0x72, 0x17, 0x73, 0x17, 0, 0, 0]
  text := #[97, 0]
  textOffsets := #[8, 0, 0, 0, 5, 0, 0, 0, 0, 0, 0, 0]
  addresses := #[8, 0, 0, 0, 5, 0, 4, 0, 0, 16, 0, 0]

/-- The same unit with the attributes of its root in the opposite order. -/
def basesFirst : Sections :=
  { numbersFirst with
    info := #[20, 0, 0, 0, 5, 0, 1, 4, 0, 0, 0, 0, 1, 8, 0, 0, 0, 8, 0, 0, 0, 16, 0, 0]
    abbreviations := #[1, 0x11, 0, 0x73, 0x17, 0x72, 0x17, 0x12, 0x0b, 0x11, 0x29, 3, 0x25, 0, 0, 0] }

def numberedHeader : UnitHeader where
  offset := 0
  stop := 24
  version := 5
  kind := 1
  abbreviations := 0
  addressSize := 4
  firstEntry := 12
  signature := none
  typeOffset := none
  inTypes := false

/-- The attributes of the root of `numbersFirst`. -/
def numberedRoot : List (WrittenAttribute numberedHeader.encoding) := [
  ⟨⟨.name, .strx1, none⟩, [0], .textIndex 0, yields_of_eval (by decide)⟩,
  ⟨⟨.lowPc, .addrx1, none⟩, [0], .addressIndex 0, yields_of_eval (by decide)⟩,
  ⟨⟨.highPc, .data1, none⟩, [16], .constant 16, yields_of_eval (by decide)⟩,
  ⟨⟨.textOffsetsBase, .secOffset, none⟩, [8, 0, 0, 0], .sectionOffset 8, yields_of_eval (by decide)⟩,
  ⟨⟨.addressBase, .secOffset, none⟩, [8, 0, 0, 0], .sectionOffset 8, yields_of_eval (by decide)⟩]

theorem headers_numbered : numbersFirst.unitHeaders.toOption = some [numberedHeader] ∧
    basesFirst.unitHeaders.toOption = some [numberedHeader] := by
  decide +kernel

theorem facts_numbersFirst : (EntryIndex.build numbersFirst [numberedHeader]).toOption.any fun index =>
    (index.locate 12).toOption.any (fun found => found.2.tag = .compileUnit ∧
      found.2.attributes = numberedRoot.map (·.spec)) ∧
    (build index numberedHeader).toOption.any (fun unit => unit.tag = .compileUnit ∧ unit.name = some "a" ∧
      unit.ranges = [⟨0x1000, 0x1010⟩]) := by
  decide +kernel

theorem facts_basesFirst : (EntryIndex.build basesFirst [numberedHeader]).toOption.any fun index =>
    (index.locate 12).toOption.any fun found => found.2.tag = .compileUnit ∧
      found.2.attributes = numberedRoot.reverse.map (·.spec) := by
  decide +kernel

theorem sections_of_build {headers : List UnitHeader} (h : EntryIndex.build sections headers = .ok index) :
    index.sections = sections := by
  obtain ⟨tables, -, entries, -, rfl⟩ := EntryIndex.build_eq_ok_iff.mp h
  rfl

theorem rootWritten_numbered {written : List (WrittenAttribute numberedHeader.encoding)}
    (hbuild : EntryIndex.build sections [numberedHeader] = .ok index)
    (hinfo : sections.info = ([20, 0, 0, 0, 5, 0, 1, 4, 0, 0, 0, 0] ++
      ([1] ++ ((written.map WrittenAttribute.bytes).flatten ++ []))).toArray)
    (hfacts : (index.locate 12).toOption.any fun found => found.2.tag = .compileUnit ∧
      found.2.attributes = written.map (·.spec)) : index.RootWritten numberedHeader .compileUnit written := by
  obtain ⟨⟨position, a⟩, hlocate, hfound⟩ := (Option.any_eq_true _ _).mp hfacts
  obtain ⟨htag, hspecs⟩ := of_decide_eq_true hfound
  refine ⟨by decide, ⟨position, a, ok_of_toOption hlocate, htag, hspecs⟩, [1], 1, [], rfl, ?_⟩
  have hplace : sections.cursorAt 12 = .place ".debug_info" sections.info 12 := if_pos (by rw [hinfo]; simp)
  show (index.sections.cursorAt 12).Holds _
  rw [sections_of_build hbuild, hplace, hinfo]
  exact Cursor.Holds.place _ _ _

theorem build_anyOrder_numbersFirst : ∃ index index' unit,
    numbersFirst.unitHeaders = .ok [numberedHeader] ∧ basesFirst.unitHeaders = .ok [numberedHeader] ∧
    EntryIndex.build numbersFirst [numberedHeader] = .ok index ∧
    EntryIndex.build basesFirst [numberedHeader] = .ok index' ∧
    index.HasRoot numberedHeader ∧ build index numberedHeader = .ok unit ∧
    unit.name = some "a" ∧ unit.ranges = [⟨0x1000, 0x1010⟩] ∧
    index.RootWritten numberedHeader unit.tag numberedRoot ∧
    index'.RootWritten numberedHeader unit.tag numberedRoot.reverse ∧
    Unambiguous (numberedRoot.map (·.attribute)) ∧ build index' numberedHeader = .ok unit := by
  obtain ⟨index, hindex, hfacts⟩ := (Option.any_eq_true _ _).mp facts_numbersFirst
  obtain ⟨hlocate, hunit⟩ := of_decide_eq_true hfacts
  obtain ⟨unit, hunit, hsaid⟩ := (Option.any_eq_true _ _).mp hunit
  obtain ⟨htag, hname, hranges⟩ := of_decide_eq_true hsaid
  obtain ⟨index', hindex', hlocate'⟩ := (Option.any_eq_true _ _).mp facts_basesFirst
  have hwritten : index.RootWritten numberedHeader unit.tag numberedRoot := by
    rw [htag]
    exact rootWritten_numbered (ok_of_toOption hindex) rfl hlocate
  have hwritten' : index'.RootWritten numberedHeader unit.tag numberedRoot.reverse := by
    rw [htag]
    exact rootWritten_numbered (ok_of_toOption hindex') rfl hlocate'
  have hroot : index.HasRoot numberedHeader := by
    obtain ⟨position, a, hfound, -⟩ := hwritten.located
    exact ⟨by decide, _, hfound⟩
  have hnames : Unambiguous (numberedRoot.map (·.attribute)) := ⟨by decide, by decide⟩
  have htables : index.sections.SharesTables index'.sections := by
    rw [sections_of_build (ok_of_toOption hindex), sections_of_build (ok_of_toOption hindex')]
    exact ⟨_, _, _, rfl⟩
  obtain ⟨-, hany⟩ := build_anyOrder hroot (ok_of_toOption hunit)
  obtain ⟨-, hsame⟩ := hany numberedRoot hwritten hnames
  exact ⟨index, index', unit, ok_of_toOption headers_numbered.1, ok_of_toOption headers_numbered.2,
    ok_of_toOption hindex, ok_of_toOption hindex', hroot, ok_of_toOption hunit, hname, hranges, hwritten, hwritten',
    hnames, hsame index' _ (List.reverse_perm _) hwritten' htables⟩

end UnitSummary

end FirmwareDebug
