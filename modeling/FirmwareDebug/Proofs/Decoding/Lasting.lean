import FirmwareDebug.Cursor
import FirmwareDebug.Proofs.Keeps

/-!
# Faults that last

A fault lasts if it does not only say that some data cannot be had right now. Decoders look at nothing
but sections, so their faults last. That is a property which what they are made of hands on to them; it
is found by instances: one for each way to put decoders together, and one for each decoder.
-/

namespace FirmwareDebug

variable {σ α β : Type}

/-- The fault is about more than data that cannot be had right now. -/
class Lasting (e : Fault) : Prop where
  unavailable_eq : e.isUnavailable = false

/-- A result whose fault lasts, if it is one. -/
class Decodes (x : Except Fault α) : Prop where
  lasting : ∀ e, x = .error e → Lasting e

/-- A run whose faults last. -/
class Decoding (run : EStateM Fault σ α) : Prop where
  keeps : Keeps (fun _ => True) Lasting run

/-! ## Faults -/

instance (region : String) (offset : Nat) : Lasting (.endOfSection region offset) := ⟨rfl⟩

instance (region : String) (offset : Nat) (defect : Defect) : Lasting (.malformed region offset defect) := ⟨rfl⟩

instance (code : UInt16) : Lasting (.unsupportedForm code) := ⟨rfl⟩

instance (version : UInt16) : Lasting (.unsupportedVersion version) := ⟨rfl⟩

instance (offset : Nat) : Lasting (.wideFormat offset) := ⟨rfl⟩

instance (size : UInt8) : Lasting (.unsupportedAddressSize size) := ⟨rfl⟩

instance (code : UInt64) (table : UInt32) : Lasting (.abbreviationNotFound code table) := ⟨rfl⟩

instance (offset : UInt32) : Lasting (.notAnEntry offset) := ⟨rfl⟩

instance (version : UInt8) : Lasting (.unsupportedCieVersion version) := ⟨rfl⟩

instance (text : String) : Lasting (.unsupportedAugmentation text) := ⟨rfl⟩

instance (opcode : UInt8) (offset : Nat) : Lasting (.unsupportedOpcode opcode offset) := ⟨rfl⟩

instance (opcode : UInt8) : Lasting (.unsupportedFrameOpcode opcode) := ⟨rfl⟩

instance (displacement : Int16) : Lasting (.negativeBranch displacement) := ⟨rfl⟩

instance : Lasting .nestedBranch := ⟨rfl⟩

instance (tag : UInt16) : Lasting (.unhandledTag tag) := ⟨rfl⟩

instance (c : Cursor) : Lasting c.endFault := ⟨rfl⟩

instance (c : Cursor) (defect : Defect) : Lasting (c.fault defect) := ⟨rfl⟩

/-! ## Results -/

namespace Decodes

instance ok (a : α) : Decodes (.ok a) := ⟨nofun⟩

instance pure (a : α) : Decodes (pure a) := ok a

instance error {e : Fault} [h : Lasting e] : Decodes (.error e : Except Fault α) :=
  ⟨fun _ he => by cases he; exact h⟩

instance throw {e : Fault} [Lasting e] : Decodes (throw e : Except Fault α) := error

instance bind {x : Except Fault α} {f : α → Except Fault β} [h : Decodes x] [hf : ∀ a, Decodes (f a)] :
    Decodes (x >>= f) := by
  cases x with
  | error e => exact ⟨fun _ he => h.lasting _ (by cases he; rfl)⟩
  | ok a => exact hf a

theorem andThen {x : Except Fault α} {f : α → Except Fault β} [Decodes x] (h : ∀ a, Decodes (f a)) :
    Decodes (x >>= f) := bind

instance map {x : Except Fault α} {f : α → β} [h : Decodes x] : Decodes (f <$> x) := by
  cases x with
  | error e => exact ⟨fun _ he => h.lasting _ (by cases he; rfl)⟩
  | ok a => exact ok (f a)

instance discard {x : Except Fault α} [Decodes x] : Decodes (discard x) :=
  inferInstanceAs (Decodes (Function.const α PUnit.unit <$> x))

instance ite {p : Prop} [Decidable p] {x y : Except Fault α} [Decodes x] [Decodes y] :
    Decodes (if p then x else y) := by
  split <;> assumption

instance mapM {f : α → Except Fault β} [h : ∀ a, Decodes (f a)] (l : List α) : Decodes (l.mapM f) := by
  induction l with
  | nil => exact ok []
  | cons a rest ih =>
    rw [List.mapM_cons]
    infer_instance

instance foldlM {f : β → α → Except Fault β} [h : ∀ b a, Decodes (f b a)] (b : β) (l : List α) :
    Decodes (l.foldlM f b) := by
  induction l generalizing b with
  | nil => exact ok b
  | cons a rest ih =>
    rw [List.foldlM_cons]
    infer_instance

instance findM? {f : α → Except Fault Bool} [h : ∀ a, Decodes (f a)] (l : List α) : Decodes (l.findM? f) := by
  induction l with
  | nil => exact ok none
  | cons a rest ih =>
    unfold List.findM?
    refine andThen fun found => ?_
    split <;> infer_instance

end Decodes

/-! ## Runs -/

namespace Decoding

instance pure (a : α) : Decoding (pure a : EStateM Fault σ α) := ⟨.pure a⟩

instance throw {e : Fault} [h : Lasting e] : Decoding (throw e : EStateM Fault σ α) := ⟨.throw h⟩

instance bind {run : EStateM Fault σ α} {f : α → EStateM Fault σ β} [h : Decoding run]
    [hf : ∀ a, Decoding (f a)] : Decoding (run >>= f) := ⟨h.keeps.bind fun a => (hf a).keeps⟩

theorem andThen {run : EStateM Fault σ α} {f : α → EStateM Fault σ β} [Decoding run]
    (h : ∀ a, Decoding (f a)) : Decoding (run >>= f) := bind

instance map {run : EStateM Fault σ α} {f : α → β} [Decoding run] : Decoding (f <$> run) := by
  rw [← bind_pure_comp]
  infer_instance

instance discard {run : EStateM Fault σ α} [Decoding run] : Decoding (discard run) := by
  rw [discard_eq]
  infer_instance

instance get : Decoding (get : EStateM Fault σ σ) := ⟨.get⟩

instance set (s : σ) : Decoding (set s : EStateM Fault σ PUnit) := ⟨fun _ _ => trivial⟩

instance modify (f : σ → σ) : Decoding (modify f : EStateM Fault σ PUnit) := ⟨.modify fun _ _ => trivial⟩

instance liftExcept {x : Except Fault α} [h : Decodes x] : Decoding (liftExcept x : EStateM Fault σ α) :=
  ⟨.liftExcept h.lasting⟩

instance ite {p : Prop} [Decidable p] {run other : EStateM Fault σ α} [Decoding run] [Decoding other] :
    Decoding (if p then run else other) := by
  split <;> assumption

instance mapM {f : α → EStateM Fault σ β} [h : ∀ a, Decoding (f a)] (l : List α) : Decoding (l.mapM f) := by
  induction l with
  | nil => exact pure []
  | cons a rest ih =>
    rw [List.mapM_cons]
    infer_instance

instance forM {f : α → EStateM Fault σ PUnit} [h : ∀ a, Decoding (f a)] (l : List α) : Decoding (l.forM f) := by
  induction l with
  | nil => exact pure _
  | cons a rest ih => exact andThen fun _ => ih

theorem lasting {run : EStateM Fault σ α} [h : Decoding run] {s s' : σ} {e : Fault}
    (hrun : run s = .error e s') : Lasting e := by
  have hend := h.keeps s trivial
  rw [hrun] at hend
  exact hend.2

theorem of_lasting {run : EStateM Fault σ α} (h : ∀ s e s', run s = .error e s' → Lasting e) : Decoding run := by
  refine ⟨fun s _ => ?_⟩
  cases hrun : run s with
  | ok a s' => trivial
  | error e s' => exact ⟨trivial, h s e s' hrun⟩

end Decoding

end FirmwareDebug
