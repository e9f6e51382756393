import FirmwareDebug.Proofs.Tree
import FirmwareDebug.Scope
import Mathlib.Data.List.Perm.Subperm
import Mathlib.Logic.Relation

/-!
# Which functions a context has

A context is looked for level by level: from the root of the unit into the first scope below it that
covers the address, and so on. It has the function at an address if scopes that cover the address lead
there, and no other scope is in front of one of them. What else encloses a function hides it.
-/

namespace FirmwareDebug

section

variable {ε α : Type} {p : α → Except ε Bool} {l : List α}

@[simp]
theorem findM?_cons (a : α) (rest : List α) : (a :: rest).findM? p =
    (p a >>= fun found => if found then .ok (some a) else rest.findM? p) := by
  rw [List.findM?]
  congr
  funext found
  cases found <;> rfl

theorem findM?_eq_some {a : α} : l.findM? p = .ok (some a) ↔
    ∃ before after, l = before ++ a :: after ∧ (∀ b ∈ before, p b = .ok false) ∧ p a = .ok true := by
  induction l with
  | nil =>
    refine ⟨nofun, ?_⟩
    rintro ⟨before, after, h, -⟩
    cases before <;> cases h
  | cons x rest ih =>
    rw [findM?_cons]
    constructor
    · intro h
      obtain ⟨found, hx, h⟩ := ok_of_bind h
      cases found with
      | true =>
        cases h
        exact ⟨[], rest, rfl, List.forall_mem_nil _, hx⟩
      | false =>
        obtain ⟨before, after, hrest, hbefore, ha⟩ := ih.mp h
        exact ⟨x :: before, after, congrArg _ hrest, List.forall_mem_cons.mpr ⟨hx, hbefore⟩, ha⟩
    · rintro ⟨before, after, hl, hbefore, ha⟩
      cases before with
      | nil =>
        cases hl
        rw [ha]
        rfl
      | cons y before =>
        cases hl
        obtain ⟨hx, hbefore⟩ := List.forall_mem_cons.mp hbefore
        rw [hx]
        exact ih.mpr ⟨before, after, rfl, hbefore, ha⟩

theorem mem_of_findM? {a : α} (h : l.findM? p = .ok (some a)) : a ∈ l := by
  obtain ⟨before, after, rfl, -⟩ := findM?_eq_some.mp h
  exact List.mem_append_right _ (.head _)

theorem false_of_findM?_eq_none (h : l.findM? p = .ok none) : ∀ a ∈ l, p a = .ok false := by
  induction l with
  | nil => exact List.forall_mem_nil _
  | cons x rest ih =>
    rw [findM?_cons] at h
    obtain ⟨found, hx, h⟩ := ok_of_bind h
    cases found with
    | true => cases h
    | false => exact List.forall_mem_cons.mpr ⟨hx, ih h⟩

end

namespace DebugInfo

variable {info : DebugInfo} {pc : UInt32}

/-! ## Scopes inside scopes -/

/-- The addresses of the entry contain the address. -/
def Covers (info : DebugInfo) (pc : UInt32) (entry : Entry) : Prop :=
  ∃ addresses, info.addressesOf entry.offset = .ok addresses ∧ addresses.contains pc = true

def FunctionAt (info : DebugInfo) (pc : UInt32) (entry : Entry) : Prop :=
  entry.tag = .subprogram ∧ info.Covers pc entry

theorem covers_iff {entry : Entry} :
    info.Covers pc entry ↔ (info.addressesOf entry.offset).toOption.any (·.contains pc) = true := by
  unfold Covers
  cases info.addressesOf entry.offset with
  | error e => simp [Except.toOption]
  | ok addresses => simp [Except.toOption]

instance (entry : Entry) : Decidable (info.Covers pc entry) := decidable_of_iff _ covers_iff.symm

instance (entry : Entry) : Decidable (info.FunctionAt pc entry) := inferInstanceAs (Decidable (_ ∧ _))

/-- A child of an entry is a scope that covers the address. -/
def ScopeInside (info : DebugInfo) (pc : UInt32) (parent scope : Entry) : Prop :=
  ∃ children, info.childrenOf parent.offset = .ok children ∧ scope ∈ children ∧
    info.scopeCovers pc scope = .ok true

/-- The child is the first one that is a scope that covers the address. -/
def FirstScope (info : DebugInfo) (pc : UInt32) (parent scope : Entry) : Prop :=
  ∃ before after, info.childrenOf parent.offset = .ok (before ++ scope :: after) ∧
    (∀ e ∈ before, info.scopeCovers pc e = .ok false) ∧ info.scopeCovers pc scope = .ok true

def ApartIn (info : DebugInfo) (pc : UInt32) (children : List Entry) : Prop :=
  children.Pairwise fun a b =>
    ¬ ((info.scopeCovers pc a).toOption = some true ∧ (info.scopeCovers pc b).toOption = some true)

instance (children : List Entry) : Decidable (info.ApartIn pc children) :=
  inferInstanceAs (Decidable (List.Pairwise _ children))

/-- No two scopes side by side cover the address. -/
def ScopesApart (info : DebugInfo) (pc : UInt32) : Prop :=
  ∀ parent children, info.childrenOf parent = .ok children → info.ApartIn pc children

theorem scopeCovers_iff {entry : Entry} :
    info.scopeCovers pc entry = .ok true ↔ entry.tag.isScope = true ∧ info.Covers pc entry := by
  unfold scopeCovers Covers
  cases entry.tag.isScope with
  | false => simp [pure, Except.pure]
  | true =>
    cases info.addressesOf entry.offset with
    | error e => simp [bind, Except.bind]
    | ok addresses => simp [bind, Except.bind, pure, Except.pure]

/-! ## The descent -/

def firstScopeIn (info : DebugInfo) (pc : UInt32) (offset : UInt32) : Except Fault (Option Entry) := do
  (← info.childrenOf offset).findM? (info.scopeCovers pc)

theorem firstScopeIn_eq_some {parent scope : Entry} :
    info.firstScopeIn pc parent.offset = .ok (some scope) ↔ info.FirstScope pc parent scope := by
  constructor
  · intro h
    obtain ⟨children, hchildren, h⟩ := ok_of_bind h
    obtain ⟨before, after, rfl, hfirst⟩ := findM?_eq_some.mp h
    exact ⟨before, after, hchildren, hfirst⟩
  · rintro ⟨before, after, hchildren, hfirst⟩
    unfold firstScopeIn
    rw [hchildren]
    exact findM?_eq_some.mpr ⟨before, after, rfl, hfirst⟩

theorem firstScope_of_scopeInside (hapart : info.ScopesApart pc) {parent scope : Entry} {found : Option Entry}
    (hfound : info.firstScopeIn pc parent.offset = .ok found) (h : info.ScopeInside pc parent scope) :
    info.FirstScope pc parent scope := by
  obtain ⟨children, hchildren, hmem, hcovers⟩ := h
  have hsearch : children.findM? (info.scopeCovers pc) = .ok found := by
    rw [← hfound, firstScopeIn, hchildren]
    rfl
  cases found with
  | none =>
    rw [false_of_findM?_eq_none hsearch scope hmem] at hcovers
    cases hcovers
  | some first =>
    obtain ⟨before, after, rfl, hbefore, hfirst⟩ := findM?_eq_some.mp hsearch
    rcases List.mem_append.mp hmem with hmem | hmem
    · rw [hbefore scope hmem] at hcovers
      cases hcovers
    · rcases List.mem_cons.mp hmem with rfl | hmem
      · exact ⟨before, after, hchildren, hbefore, hcovers⟩
      · have hpairs := (List.pairwise_append.mp (hapart _ _ hchildren)).2.1
        refine absurd ⟨?_, ?_⟩ (List.rel_of_pairwise_cons hpairs hmem)
        · rw [hfirst]
          rfl
        · rw [hcovers]
          rfl

theorem scopesWithin_spec {budget : Nat} {offset : UInt32} {scopes : List Entry}
    (h : info.scopesWithin pc budget offset = .ok scopes) :
    scopes.length ≤ budget ∧ ∀ i < budget, ∀ place, (offset :: scopes.map Entry.offset)[i]? = some place →
      info.firstScopeIn pc place = .ok scopes[i]? := by
  induction budget generalizing offset scopes with
  | zero =>
    cases h
    exact ⟨Nat.le_refl 0, fun i hi => absurd hi (Nat.not_lt_zero i)⟩
  | succ budget ih =>
    unfold scopesWithin at h
    simp only [bind_eq_ok_iff] at h
    obtain ⟨children, hchildren, found, hsearch, h⟩ := h
    have hfound : info.firstScopeIn pc offset = .ok found := by
      rw [firstScopeIn, hchildren]
      exact hsearch
    cases found with
    | none =>
      cases h
      refine ⟨Nat.zero_le _, fun i _ place hplace => ?_⟩
      cases i with
      | zero =>
        cases hplace
        exact hfound
      | succ i => cases hplace
    | some scope =>
      simp only [bind_eq_ok_iff, pure_eq_ok_iff] at h
      obtain ⟨rest, hrest, rfl⟩ := h
      obtain ⟨hlength, hscopes⟩ := ih hrest
      refine ⟨Nat.succ_le_succ hlength, fun i hi place hplace => ?_⟩
      cases i with
      | zero =>
        cases hplace
        exact hfound
      | succ i => exact hscopes i (Nat.lt_of_succ_lt_succ hi) place hplace

theorem entry_of_childrenOf {parent : UInt32} {children : List Entry}
    (h : info.childrenOf parent = .ok children) :
    ∃ (position : Nat) (a : Abbreviation), info.entries[position]? = some ⟨parent, some a⟩ := by
  obtain ⟨tree, htree, -⟩ := ok_of_bind h
  obtain ⟨⟨position, a⟩, hlocate, -⟩ := ok_of_bind htree
  exact ⟨position, a, entry_of_locate hlocate⟩

theorem exists_same_place {places : List UInt32} (hlength : info.entries.size < places.length)
    (hsearched : ∀ i ≤ info.entries.size, ∀ place, places[i]? = some place →
      ∃ found, info.firstScopeIn pc place = .ok found) :
    ∃ i j, i < j ∧ j ≤ info.entries.size ∧ places[i]? = places[j]? := by
  -- places that were searched are those of entries, and here are more of them than entries
  by_contra hdistinct
  have hnodup : (places.take (info.entries.size + 1)).Nodup := by
    refine List.pairwise_iff_getElem.mpr fun i j hi hj hij hsame => hdistinct ⟨i, j, hij, ?_, ?_⟩
    · rw [List.length_take] at hj
      omega
    · rw [List.getElem_take, List.getElem_take] at hsame
      rw [List.length_take] at hi hj
      rw [List.getElem?_eq_getElem (by omega), List.getElem?_eq_getElem (by omega), hsame]
  have hsubset : places.take (info.entries.size + 1) ⊆ info.entries.toList.map IndexedEntry.offset := by
    intro place hplace
    obtain ⟨i, hi, hat⟩ := List.mem_take_iff_getElem.mp hplace
    obtain ⟨found, hfound⟩ := hsearched i (by omega) place (List.getElem?_eq_some_iff.mpr ⟨by omega, hat⟩)
    obtain ⟨children, hchildren, -⟩ := ok_of_bind hfound
    obtain ⟨position, a, hentry⟩ := entry_of_childrenOf hchildren
    rw [← Array.getElem?_toList] at hentry
    exact List.mem_map_of_mem (List.mem_of_getElem? hentry)
  have hle := (List.subperm_of_subset hnodup hsubset).length_le
  simp at hle
  omega

theorem same_place_later {offset : UInt32} {scopes : List Entry}
    (hscopes : ∀ i < scopes.length, ∀ place, (offset :: scopes.map Entry.offset)[i]? = some place →
      info.firstScopeIn pc place = .ok scopes[i]?) {i j : Nat} (hij : i < j)
    (hsame : (offset :: scopes.map Entry.offset)[i]? = (offset :: scopes.map Entry.offset)[j]?) {t : Nat}
    (ht : j + t ≤ scopes.length) :
    (offset :: scopes.map Entry.offset)[i + t]? = (offset :: scopes.map Entry.offset)[j + t]? := by
  induction t with
  | zero => exact hsame
  | succ t ih =>
    have hbefore := ih (by omega)
    have hlt : i + t < (offset :: scopes.map Entry.offset).length := by
      rw [List.length_cons, List.length_map]
      omega
    have hfirst := hscopes (i + t) (by omega) _ (List.getElem?_eq_getElem hlt)
    have hsecond := hscopes (j + t) (by omega) _ (hbefore.symm.trans (List.getElem?_eq_getElem hlt))
    have hnext := Except.ok.inj (hfirst.symm.trans hsecond)
    rw [← Nat.add_assoc, ← Nat.add_assoc, List.getElem?_cons_succ, List.getElem?_cons_succ, List.getElem?_map,
      List.getElem?_map, hnext]

theorem scopesWithin_closed {offset : UInt32} {scopes : List Entry}
    (h : info.scopesWithin pc (info.entries.size + 1) offset = .ok scopes) {place : UInt32}
    (hplace : place ∈ offset :: scopes.map Entry.offset) :
    ∃ found, info.firstScopeIn pc place = .ok found ∧ ∀ scope ∈ found, scope ∈ scopes := by
  obtain ⟨hlength, hscopes⟩ := scopesWithin_spec h
  obtain ⟨k, hk, hget⟩ := List.mem_iff_getElem.mp hplace
  have hat := List.getElem?_eq_some_iff.mpr ⟨hk, hget⟩
  rw [List.length_cons, List.length_map] at hk
  have hsearched : ∀ i ≤ info.entries.size, (offset :: scopes.map Entry.offset)[i]? = some place →
      ∃ found, info.firstScopeIn pc place = .ok found ∧ ∀ scope ∈ found, scope ∈ scopes :=
    fun i hi hplace => ⟨_, hscopes i (by omega) place hplace, fun scope hscope => List.mem_of_getElem? hscope⟩
  by_cases hlast : k ≤ info.entries.size
  · exact hsearched k hlast hat
  -- The budget is used up, so some place comes twice and the last one is that of an earlier scope.
  have hfull : scopes.length = info.entries.size + 1 := by omega
  have hlong : info.entries.size < (offset :: scopes.map Entry.offset).length := by
    rw [List.length_cons, List.length_map]
    omega
  obtain ⟨i, j, hij, hj, hsame⟩ := exists_same_place hlong
    fun i hi place hplace => ⟨_, hscopes i (by omega) place hplace⟩
  rw [← hfull] at hscopes
  have hearlier := same_place_later hscopes hij hsame (t := k - j) (by omega)
  rw [Nat.add_sub_cancel' (by omega), hat] at hearlier
  exact hsearched _ (by omega) hearlier

/-- The entries of a context are the root of its unit and the first scopes from there inwards. -/
theorem mem_context_iff {unit : UnitSummary} {context : Context} (h : info.contextIn unit pc = .ok context) :
    ∃ root, info.entryAt unit.header.firstEntry = .ok root ∧
      (∀ e ∈ context, ∃ found, info.firstScopeIn pc e.offset = .ok found) ∧
      ∀ e, e ∈ context ↔ Relation.ReflTransGen (info.FirstScope pc) root e := by
  simp only [contextIn, bind_eq_ok_iff, pure_eq_ok_iff] at h
  obtain ⟨root, hroot, scopes, hwithin, rfl⟩ := h
  have hclosed : ∀ e ∈ root :: scopes, ∃ found, info.firstScopeIn pc e.offset = .ok found ∧
      ∀ scope ∈ found, scope ∈ scopes :=
    fun e he => scopesWithin_closed hwithin (List.mem_map_of_mem he)
  refine ⟨root, hroot, fun e he => (hclosed e he).imp fun _ hfound => hfound.1, fun e => ⟨fun he => ?_, fun he => ?_⟩⟩
  · obtain ⟨hlength, hscopes⟩ := scopesWithin_spec hwithin
    have hreached : ∀ (k : Nat) (hk : k < (root :: scopes).length),
        Relation.ReflTransGen (info.FirstScope pc) root (root :: scopes)[k] := by
      intro k
      induction k with
      | zero => exact fun _ => .refl
      | succ k ih =>
        intro hk
        have hlt : k < (root :: scopes).length := Nat.lt_of_succ_lt hk
        have hplace : (root.offset :: scopes.map Entry.offset)[k]? = some (root :: scopes)[k].offset := by
          rw [← List.map_cons, List.getElem?_map, List.getElem?_eq_getElem hlt]
          rfl
        rw [List.length_cons] at hk
        refine (ih hlt).tail (firstScopeIn_eq_some.mp ?_)
        rw [hscopes k (by omega) _ hplace, List.getElem?_eq_getElem (by omega), List.getElem_cons_succ]
    obtain ⟨k, hk, rfl⟩ := List.mem_iff_getElem.mp he
    exact hreached k hk
  · induction he with
    | refl => exact .head _
    | tail _ hfirst ih =>
      obtain ⟨found, hfound, hmem⟩ := hclosed _ ih
      cases (firstScopeIn_eq_some.mpr hfirst).symm.trans hfound
      exact .tail _ (hmem _ rfl)

/-- Where scopes are apart, a context has all the scopes that cover the address and lead from one to the next. -/
theorem mem_context_iff_of_scopesApart (hapart : info.ScopesApart pc) {context : Context} {root : Entry}
    (hsearched : ∀ e ∈ context, ∃ found, info.firstScopeIn pc e.offset = .ok found)
    (hmem : ∀ e, e ∈ context ↔ Relation.ReflTransGen (info.FirstScope pc) root e) (e : Entry) :
    e ∈ context ↔ Relation.ReflTransGen (info.ScopeInside pc) root e := by
  rw [hmem]
  constructor
  · have hinside : info.FirstScope pc ≤ info.ScopeInside pc := by
      rintro parent scope ⟨before, after, hchildren, -, hcovers⟩
      exact ⟨_, hchildren, List.mem_append_right _ (.head _), hcovers⟩
    exact Relation.ReflTransGen.mono hinside root e
  · intro h
    induction h with
    | refl => exact .refl
    | tail _ hinside ih =>
      obtain ⟨found, hfound⟩ := hsearched _ ((hmem _).mpr ih)
      exact ih.tail (firstScope_of_scopeInside hapart hfound hinside)

/--
The context of an address has a function that covers it exactly if first scopes lead from the root of
the unit to one. Where no two scopes side by side cover the address, they need not be the first.
-/
theorem context_functionAt_iff {recent last : Option Nat} {context : Context}
    (h : info.contextAt pc recent = .ok context last) :
    ∃ found, info.unitCovering pc recent = .ok found last ∧ (found = none → context = []) ∧
      ∀ unit, found = some unit → ∃ root, info.entryAt unit.header.firstEntry = .ok root ∧
        ((∃ e ∈ context, info.FunctionAt pc e) ↔
          ∃ e, Relation.ReflTransGen (info.FirstScope pc) root e ∧ info.FunctionAt pc e) ∧
        (info.ScopesApart pc → ((∃ e ∈ context, info.FunctionAt pc e) ↔
          ∃ e, Relation.ReflTransGen (info.ScopeInside pc) root e ∧ info.FunctionAt pc e)) := by
  obtain ⟨found, next, hunit, h⟩ := ran_of_bind h
  cases found with
  | none =>
    cases h
    exact ⟨none, hunit, fun _ => rfl, fun _ hnone => absurd hnone (Option.some_ne_none _).symm⟩
  | some unit =>
    obtain ⟨hcontext, rfl⟩ := ran_of_liftExcept h
    refine ⟨some unit, hunit, fun hsome => absurd hsome (Option.some_ne_none _), fun unit' hsame => ?_⟩
    obtain rfl := Option.some.inj hsame
    obtain ⟨root, hroot, hsearched, hmem⟩ := mem_context_iff hcontext
    refine ⟨root, hroot, ?_, fun hapart => ?_⟩
    · simp only [hmem]
    · simp only [mem_context_iff_of_scopesApart hapart hsearched hmem]

/-- A function with a block, in which the address lies. -/
def blockInFunction : Sections where
  info := #[36, 0, 0, 0, 4, 0, 0, 0, 0, 0, 4, 1, 0, 1, 0, 0, 0, 2, 0, 0, 2, 0, 1, 0, 0, 0x10, 0, 0, 0,
    3, 4, 1, 0, 0, 4, 0, 0, 0, 0, 0]
  abbreviations := #[1, 0x11, 1, 0x11, 1, 0x12, 6, 0, 0, 2, 0x2e, 1, 0x11, 1, 0x12, 6, 0, 0,
    3, 0x0b, 0, 0x11, 1, 0x12, 6, 0, 0, 0]

theorem context_blockInFunction : (build blockInFunction).toOption.bind (fun info =>
    (info.contextAt 0x104).run' none |>.map fun context =>
      (context.map Entry.offset, context.any fun e => decide (info.FunctionAt 0x104 e),
        info.entries.toList.all fun e => (info.childrenOf e.offset).toOption.all fun children =>
          decide (info.ApartIn 0x104 children))) = some ([11, 20, 29], true, true) := by
  decide +kernel

theorem run_of_run' {α : Type} {q : Query α} {recent : Option Nat} {a : α} (h : q.run' recent = some a) :
    ∃ last, q recent = .ok a last := by
  unfold EStateM.run' at h
  split at h
  case h_1 last hq =>
    cases h
    exact ⟨last, hq⟩
  case h_2 => cases h

theorem context_functionAt_blockInFunction : ∃ info context last, build blockInFunction = .ok info ∧
    info.contextAt 0x104 none = .ok context last ∧ context.map Entry.offset = [11, 20, 29] ∧
      info.ScopesApart 0x104 ∧
        ∃ root e, Relation.ReflTransGen (info.ScopeInside 0x104) root e ∧ info.FunctionAt 0x104 e := by
  obtain ⟨info, hbuild, hfacts⟩ := Option.bind_eq_some_iff.mp context_blockInFunction
  obtain ⟨context, hrun, hfacts⟩ := Option.map_eq_some_iff.mp hfacts
  simp only [Prod.mk.injEq, List.any_eq_true, decide_eq_true_eq] at hfacts
  obtain ⟨hentries, hfunction, happart⟩ := hfacts
  obtain ⟨last, hcontext⟩ := run_of_run' hrun
  have happart : info.ScopesApart 0x104 := by
    intro parent children hchildren
    obtain ⟨position, a, hentry⟩ := entry_of_childrenOf hchildren
    rw [← Array.getElem?_toList] at hentry
    have hall := List.all_eq_true.mp happart _ (List.mem_of_getElem? hentry)
    rw [hchildren] at hall
    exact of_decide_eq_true hall
  obtain ⟨found, -, hnone, hunit⟩ := context_functionAt_iff hcontext
  cases found with
  | none =>
    rw [hnone rfl] at hentries
    cases hentries
  | some unit =>
    obtain ⟨root, -, -, hiff⟩ := hunit unit rfl
    exact ⟨info, context, last, ok_of_toOption hbuild, hcontext, hentries, happart, root,
      (hiff happart).mp hfunction⟩

/-- A function in a namespace. -/
def functionInNamespace : Sections where
  info := #[30, 0, 0, 0, 4, 0, 0, 0, 0, 0, 4, 1, 0, 1, 0, 0, 0, 2, 0, 0, 2, 0x6e, 0, 3, 0, 1, 0, 0, 0x10, 0, 0, 0, 0, 0]
  abbreviations := #[1, 0x11, 1, 0x11, 1, 0x12, 6, 0, 0, 2, 0x39, 1, 3, 8, 0, 0, 3, 0x2e, 0, 0x11, 1, 0x12, 6, 0, 0, 0]

theorem context_functionInNamespace : (build functionInNamespace).toOption.bind (fun info =>
    (info.unitCovering 0x104).run' none |>.bind fun unit => (info.contextAt 0x104).run' none |>.bind fun context =>
      (info.entryAt 23).toOption.map fun entry =>
        (unit.any (·.header.contains 23), decide (info.FunctionAt 0x104 entry),
          context.any fun e => decide (info.FunctionAt 0x104 e), info.functions.toOption)) =
      some (true, true, false, some [⟨none, 23, 0x100, 0x110⟩]) := by
  decide +kernel

/-- The function is one of the unit and covers the address, but the context ends at the root. -/
theorem not_functionAt_functionInNamespace : ∃ info unit context last last' entry,
    build functionInNamespace = .ok info ∧ info.unitCovering 0x104 none = .ok (some unit) last ∧
      unit.header.contains 23 = true ∧ info.functions = .ok [⟨none, 23, 0x100, 0x110⟩] ∧
      info.entryAt 23 = .ok entry ∧ info.FunctionAt 0x104 entry ∧
      info.contextAt 0x104 none = .ok context last' ∧ ¬ ∃ e ∈ context, info.FunctionAt 0x104 e := by
  obtain ⟨info, hbuild, hfacts⟩ := Option.bind_eq_some_iff.mp context_functionInNamespace
  obtain ⟨found, hunit, hfacts⟩ := Option.bind_eq_some_iff.mp hfacts
  obtain ⟨context, hcontext, hfacts⟩ := Option.bind_eq_some_iff.mp hfacts
  obtain ⟨entry, hentry, hfacts⟩ := Option.map_eq_some_iff.mp hfacts
  simp only [Prod.mk.injEq, decide_eq_true_eq, List.any_eq_false] at hfacts
  obtain ⟨hcontains, hfunction, hmissed, hfunctions⟩ := hfacts
  obtain ⟨unit, rfl, hcontains⟩ := (Option.any_eq_true _ _).mp hcontains
  obtain ⟨last, hunit⟩ := run_of_run' hunit
  obtain ⟨last', hcontext⟩ := run_of_run' hcontext
  refine ⟨info, unit, context, last, last', entry, ok_of_toOption hbuild, hunit, hcontains,
    ok_of_toOption hfunctions, ok_of_toOption hentry, hfunction, hcontext, ?_⟩
  rintro ⟨e, he, hfound⟩
  exact hmissed e he hfound

end DebugInfo

end FirmwareDebug
