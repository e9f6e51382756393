import FirmwareDebug.Proofs.Keeps

/-!
# Runs that are alike

Two runs over states of different types are alike when, begun in related states, they give the same
answer or fail with the same fault, and end in related states. What a run keeps is the case of a run
that is like itself.
-/

namespace FirmwareDebug

variable {ε σ τ α β : Type}

/-- The ends of two runs: the same answer or the same allowed fault, in related states. -/
def EndAlike (R : σ → τ → Prop) (Allowed : ε → Prop) :
    EStateM.Result ε σ α → EStateM.Result ε τ α → Prop
  | .ok a s, .ok b t => a = b ∧ R s t
  | .error e s, .error f t => (e = f ∧ Allowed e) ∧ R s t
  | _, _ => False

/-- Begun in related states, the runs end alike. -/
def Alike (R : σ → τ → Prop) (Allowed : ε → Prop) (run : EStateM ε σ α) (other : EStateM ε τ α) : Prop :=
  ∀ s t, R s t → EndAlike R Allowed (run s) (other t)

section

variable {R : σ → τ → Prop} {Allowed : ε → Prop}

theorem EndAlike.cases {x : EStateM.Result ε σ α} {y : EStateM.Result ε τ α} (h : EndAlike R Allowed x y) :
    (∃ a s t, x = .ok a s ∧ y = .ok a t ∧ R s t) ∨
      ∃ e s t, x = .error e s ∧ y = .error e t ∧ Allowed e ∧ R s t := by
  cases x <;> cases y
  case ok.ok =>
    obtain ⟨rfl, hst⟩ := h
    exact .inl ⟨_, _, _, rfl, rfl, hst⟩
  case error.error =>
    obtain ⟨⟨rfl, he⟩, hst⟩ := h
    exact .inr ⟨_, _, _, rfl, rfl, he, hst⟩
  all_goals cases h

theorem EndAlike.bind {first : EStateM ε σ α} {other : EStateM ε τ α} {f : α → EStateM ε σ β}
    {g : α → EStateM ε τ β} {s : σ} {t : τ} (h : EndAlike R Allowed (first s) (other t))
    (hf : ∀ a s' t', first s = .ok a s' → R s' t' → EndAlike R Allowed (f a s') (g a t')) :
    EndAlike R Allowed ((first >>= f) s) ((other >>= g) t) := by
  rw [run_bind, run_bind]
  obtain ⟨a, s', t', hfirst, hother, hst⟩ | ⟨e, s', t', hfirst, hother, he, hst⟩ := h.cases
  · rw [hfirst, hother]
    exact hf a s' t' hfirst hst
  · rw [hfirst, hother]
    exact ⟨⟨rfl, he⟩, hst⟩

namespace Alike

theorem refl (run : EStateM ε σ α) : Alike Eq (fun _ => True) run run := by
  rintro s _ rfl
  cases run s with
  | ok a s' => exact ⟨rfl, rfl⟩
  | error e s' => exact ⟨⟨rfl, trivial⟩, rfl⟩

theorem pure (a : α) : Alike R Allowed (pure a) (pure a) := fun _ _ h => ⟨rfl, h⟩

theorem throw {e : ε} (h : Allowed e) :
    Alike R Allowed (throw e : EStateM ε σ α) (throw e : EStateM ε τ α) :=
  fun _ _ hst => ⟨⟨rfl, h⟩, hst⟩

theorem modify {f : σ → σ} {g : τ → τ} (h : ∀ s t, R s t → R (f s) (g t)) :
    Alike R Allowed (modify f : EStateM ε σ PUnit) (modify g : EStateM ε τ PUnit) :=
  fun s t hst => ⟨rfl, h s t hst⟩

theorem bind {first : EStateM ε σ α} {other : EStateM ε τ α} {f : α → EStateM ε σ β}
    {g : α → EStateM ε τ β} (h : Alike R Allowed first other) (hf : ∀ a, Alike R Allowed (f a) (g a)) :
    Alike R Allowed (first >>= f) (other >>= g) :=
  fun s t hst => (h s t hst).bind fun a s' t' _ hst' => hf a s' t' hst'

theorem liftExcept {x : Except ε α} (h : ∀ e, x = .error e → Allowed e) :
    Alike R Allowed (liftExcept x : EStateM ε σ α) (liftExcept x : EStateM ε τ α) := by
  cases x with
  | error e => exact throw (h e rfl)
  | ok a => exact pure a

theorem mapM {step : β → EStateM ε σ α} {other : β → EStateM ε τ α} {l : List β}
    (h : ∀ b ∈ l, Alike R Allowed (step b) (other b)) : Alike R Allowed (l.mapM step) (l.mapM other) := by
  induction l with
  | nil => exact pure []
  | cons b rest ih =>
    obtain ⟨hfirst, hrest⟩ := List.forall_mem_cons.mp h
    rw [List.mapM_cons, List.mapM_cons]
    exact hfirst.bind fun a => (ih hrest).bind fun as => pure (a :: as)

theorem congr {R' : σ → τ → Prop} {run : EStateM ε σ α} {other : EStateM ε τ α}
    (h : Alike R Allowed run other) (hR : ∀ s t, R s t ↔ R' s t) : Alike R' Allowed run other := by
  rwa [← funext fun s => funext fun t => propext (hR s t)]

end Alike

end

theorem Keeps.of_alike {Inv : σ → Prop} {Allowed : ε → Prop} {run : EStateM ε σ α}
    (h : Alike (fun s t => s = t ∧ Inv s) Allowed run run) : Keeps Inv Allowed run := by
  intro s hs
  obtain ⟨a, s', _, hrun, -, -, hs'⟩ | ⟨e, s', _, hrun, -, he, -, hs'⟩ := (h s s ⟨rfl, hs⟩).cases
  · rw [hrun]
    exact hs'
  · rw [hrun]
    exact ⟨hs', he⟩

theorem Keeps.alike {Inv : σ → Prop} {Allowed : ε → Prop} {run : EStateM ε σ α}
    (h : Keeps Inv Allowed run) : Alike (fun s t => s = t ∧ Inv s) Allowed run run := by
  rintro s _ ⟨rfl, hs⟩
  have hend := h s hs
  cases hrun : run s with
  | ok a s' =>
    rw [hrun] at hend
    exact ⟨rfl, rfl, hend⟩
  | error e s' =>
    rw [hrun] at hend
    exact ⟨⟨rfl, hend.2⟩, rfl, hend.1⟩

end FirmwareDebug
