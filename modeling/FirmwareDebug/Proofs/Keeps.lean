import FirmwareDebug.Fault
import Mathlib.Data.List.Forall2

/-!
# What runs with a state keep

Reads, queries and runs of the machine all change a state and may fail. `Keeps` says of any of them
that it leaves an invariant of the state alone and fails only with faults of some kind. When a run has an
answer is said once for each way to build one, so that `simp` takes a run that has one apart.
-/

namespace FirmwareDebug

variable {ε σ α β : Type}

theorem run_bind (first : EStateM ε σ α) (f : α → EStateM ε σ β) (s : σ) :
    (first >>= f) s = match first s with
      | .ok a s' => f a s'
      | .error e s' => .error e s' := by
  simp only [bind, EStateM.bind]
  cases first s <;> rfl

theorem discard_eq (run : EStateM ε σ α) : discard run = do let _ ← run; return ⟨⟩ :=
  (bind_pure_comp _ run).symm

theorem run_bind_of_ok {first : EStateM ε σ α} {f : α → EStateM ε σ β} {s next : σ} {a : α}
    (h : first s = .ok a next) : (first >>= f) s = f a next := by
  rw [run_bind, h]

theorem run_bind_congr {first other : EStateM ε σ α} {f g : α → EStateM ε σ β} {s : σ} (h : first s = other s)
    (hnext : ∀ a next, other s = .ok a next → f a next = g a next) : (first >>= f) s = (other >>= g) s := by
  rw [run_bind, run_bind, h]
  cases hran : other s with
  | error e next => rfl
  | ok a next => exact hnext a next hran

/-! ## What has an answer -/

section

variable {first x : Except ε α} {f : α → Except ε β} {a b : α} {c : β} {e : ε} {p : Prop} [Decidable p]

@[simp]
theorem pure_eq_ok_iff : (pure a : Except ε α) = .ok b ↔ a = b := iff_of_eq (Except.ok.injEq a b)

@[simp]
theorem throw_ne_ok : (throw e : Except ε α) ≠ .ok a := nofun

@[simp]
theorem bind_eq_ok_iff : (first >>= f) = .ok c ↔ ∃ a, first = .ok a ∧ f a = .ok c := by
  cases first <;> simp [bind, Except.bind]

/-- A guard in front of the rest is passed. -/
@[simp]
theorem guard_eq_ok_iff {k : β → Except ε α} : (if p then throw e >>= k else x) = .ok a ↔ ¬ p ∧ x = .ok a := by
  by_cases hp : p <;> simp [hp]

theorem ok_of_bind (h : (first >>= f) = .ok c) : ∃ a, first = .ok a ∧ f a = .ok c := bind_eq_ok_iff.mp h

end

section

variable {first run : EStateM ε σ α} {f : α → EStateM ε σ β} {s last : σ} {a b : α} {c : β} {e : ε} {p : Prop}
  [Decidable p]

@[simp]
theorem run_pure_eq_ok_iff : (pure a : EStateM ε σ α) s = .ok b last ↔ a = b ∧ s = last :=
  iff_of_eq (EStateM.Result.ok.injEq a s b last)

@[simp]
theorem run_throw_ne_ok : (throw e : EStateM ε σ α) s ≠ .ok a last := nofun

@[simp]
theorem run_get_eq_ok_iff {t : σ} : (get : EStateM ε σ σ) s = .ok t last ↔ s = t ∧ s = last :=
  iff_of_eq (EStateM.Result.ok.injEq s s t last)

@[simp]
theorem run_modify_eq_ok_iff {g : σ → σ} {u : PUnit} :
    (modify g : EStateM ε σ PUnit) s = .ok u last ↔ g s = last := by
  have hran : (modify g : EStateM ε σ PUnit) s = .ok u (g s) := rfl
  rw [hran, EStateM.Result.ok.injEq, and_iff_right rfl]

@[simp]
theorem run_liftExcept_eq_ok_iff {x : Except ε α} :
    (liftExcept x : EStateM ε σ α) s = .ok a last ↔ x = .ok a ∧ last = s := by
  cases x with
  | error e => exact iff_of_false nofun nofun
  | ok b => simp [liftExcept, eq_comm]

@[simp]
theorem run_bind_eq_ok_iff :
    (first >>= f) s = .ok c last ↔ ∃ a next, first s = .ok a next ∧ f a next = .ok c last := by
  rw [run_bind]
  cases first s <;> simp

@[simp]
theorem run_guard_eq_ok_iff {k : β → EStateM ε σ α} :
    (if p then throw e >>= k else run) s = .ok a last ↔ ¬ p ∧ run s = .ok a last := by
  by_cases hp : p <;> simp [hp]

theorem ran_of_bind (h : (first >>= f) s = .ok c last) :
    ∃ a next, first s = .ok a next ∧ f a next = .ok c last := run_bind_eq_ok_iff.mp h

theorem ran_of_liftExcept {x : Except ε α} (h : (liftExcept x : EStateM ε σ α) s = .ok a last) :
    x = .ok a ∧ last = s := run_liftExcept_eq_ok_iff.mp h

end

theorem ok_of_toOption {x : Except ε α} {a : α} (h : x.toOption = some a) : x = .ok a := by
  cases x with
  | error e => cases h
  | ok b =>
    cases h
    rfl

theorem mapM_cases (f : α → Except ε β) (l : List α) :
    (∃ values, l.mapM f = .ok values ∧ List.Forall₂ (fun a b => f a = .ok b) l values) ∨
      ∃ front a back e, l = front ++ a :: back ∧ (∀ x ∈ front, ∃ b, f x = .ok b) ∧ f a = .error e ∧
        l.mapM f = .error e := by
  induction l with
  | nil => exact .inl ⟨[], rfl, .nil⟩
  | cons a rest ih =>
    rw [List.mapM_cons]
    cases ha : f a with
    | error e => exact .inr ⟨[], a, rest, e, rfl, List.forall_mem_nil _, ha, rfl⟩
    | ok b =>
      rcases ih with ⟨values, hvalues, hall⟩ | ⟨front, x, back, e, hrest, hfront, hx, hfail⟩
      · refine .inl ⟨b :: values, ?_, .cons ha hall⟩
        rw [hvalues]
        rfl
      · refine .inr ⟨a :: front, x, back, e, ?_, ?_, hx, ?_⟩
        · rw [hrest]
          rfl
        · exact List.forall_mem_cons.mpr ⟨⟨b, ha⟩, hfront⟩
        · rw [hfail]
          rfl

@[simp]
theorem mapM_eq_ok_iff {f : α → Except ε β} {l : List α} {values : List β} :
    l.mapM f = .ok values ↔ List.Forall₂ (fun a b => f a = .ok b) l values := by
  induction l generalizing values with
  | nil => rw [List.mapM_nil, pure_eq_ok_iff, List.forall₂_nil_left_iff, eq_comm]
  | cons a rest ih =>
    simp only [List.mapM_cons, bind_eq_ok_iff, pure_eq_ok_iff, ih, List.forall₂_cons_left_iff]
    grind

theorem mapM_congr {f g : α → Except ε β} {l : List α} (h : ∀ a ∈ l, f a = g a) : l.mapM f = l.mapM g := by
  induction l with
  | nil => rfl
  | cons a rest ih =>
    obtain ⟨ha, hrest⟩ := List.forall_mem_cons.mp h
    rw [List.mapM_cons, List.mapM_cons, ha, ih hrest]

theorem mapM_of_error {f : α → Except ε β} {front : List α} {a : α} {e : ε} (hfront : ∀ x ∈ front, ∃ b, f x = .ok b)
    (ha : f a = .error e) (back : List α) : (front ++ a :: back).mapM f = .error e := by
  induction front with
  | nil =>
    rw [List.nil_append, List.mapM_cons, ha]
    rfl
  | cons x front ih =>
    obtain ⟨⟨b, hx⟩, hrest⟩ := List.forall_mem_cons.mp hfront
    rw [List.cons_append, List.mapM_cons, hx, ih hrest]
    rfl

/-- Begun where the invariant holds, the run ends where it holds, and its faults are allowed. -/
def Keeps (Inv : σ → Prop) (Allowed : ε → Prop) (run : EStateM ε σ α) : Prop :=
  ∀ s, Inv s → match run s with
    | .ok _ s' => Inv s'
    | .error e s' => Inv s' ∧ Allowed e

namespace Keeps

variable {Inv : σ → Prop} {Allowed : ε → Prop}

theorem pure (a : α) : Keeps Inv Allowed (pure a : EStateM ε σ α) := fun _ h => h

theorem throw {e : ε} (h : Allowed e) : Keeps Inv Allowed (throw e : EStateM ε σ α) :=
  fun _ hs => ⟨hs, h⟩

theorem get : Keeps Inv Allowed (get : EStateM ε σ σ) := fun _ h => h

theorem modify {f : σ → σ} (h : ∀ s, Inv s → Inv (f s)) :
    Keeps Inv Allowed (modify f : EStateM ε σ PUnit) := fun s hs => h s hs

theorem bind {first : EStateM ε σ α} {f : α → EStateM ε σ β} (h : Keeps Inv Allowed first)
    (hf : ∀ a, Keeps Inv Allowed (f a)) : Keeps Inv Allowed (first >>= f) := by
  intro s hs
  rw [run_bind]
  have hfirst := h s hs
  cases hrun : first s with
  | error e s' =>
    rw [hrun] at hfirst
    exact hfirst
  | ok a s' =>
    rw [hrun] at hfirst
    exact hf a s' hfirst

theorem liftExcept {x : Except ε α} (h : ∀ e, x = .error e → Allowed e) :
    Keeps Inv Allowed (liftExcept x : EStateM ε σ α) := by
  cases x with
  | error e => exact throw (h e rfl)
  | ok a => exact pure a

end Keeps

end FirmwareDebug
