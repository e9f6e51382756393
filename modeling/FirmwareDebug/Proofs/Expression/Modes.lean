import FirmwareDebug.Proofs.Expression.Compilation

/-!
# Two modes of compiling

An operation that is not translated fails the expression in one mode and ends its program with a mark in the
other one. The modes differ in nothing else: up to that operation both make the same words, and whatever else
is wrong with the expression is wrong in both. The tally counts the operations that were not translated in
either mode.
-/

namespace FirmwareDebug

/-- The fault says that an operation of an expression is not translated. -/
def Fault.isRefusal : Fault → Bool
  | .unsupportedOpcode _ _ | .negativeBranch _ | .nestedBranch => true
  | _ => false

/-- A run that does not fail for an operation that is not translated. -/
class Unrefused {σ α : Type} (run : EStateM Fault σ α) : Prop where
  keeps : Keeps (fun _ => True) (fun e => e.isRefusal = false) run

namespace Unrefused

variable {σ α β : Type} {run : EStateM Fault σ α}

instance pure (a : α) : Unrefused (pure a : EStateM Fault σ α) := ⟨.pure a⟩

instance get : Unrefused (get : EStateM Fault σ σ) := ⟨.get⟩

instance throw_fault (c : Cursor) (defect : Defect) : Unrefused (throw (c.fault defect) : EStateM Fault σ α) :=
  ⟨.throw rfl⟩

instance throw_addressSize (size : UInt8) : Unrefused (throw (.unsupportedAddressSize size) : EStateM Fault σ α) :=
  ⟨.throw rfl⟩

instance bind {f : α → EStateM Fault σ β} [h : Unrefused run] [hf : ∀ a, Unrefused (f a)] :
    Unrefused (run >>= f) := ⟨h.keeps.bind fun a => (hf a).keeps⟩

instance map {f : α → β} [Unrefused run] : Unrefused (f <$> run) := by
  rw [← bind_pure_comp]
  infer_instance

instance ite {p : Prop} [Decidable p] {other : EStateM Fault σ α} [Unrefused run] [Unrefused other] :
    Unrefused (if p then run else other) := by
  split <;> assumption

theorem isRefusal_eq [h : Unrefused run] {s s' : σ} {e : Fault} (hrun : run s = .error e s') :
    e.isRefusal = false := by
  have hend := h.keeps s trivial
  rw [hrun] at hend
  exact hend.2

theorem of_error (h : ∀ s e s', run s = .error e s' → e.isRefusal = false) : Unrefused run := by
  refine ⟨fun s _ => ?_⟩
  cases hrun : run s with
  | ok a s' => trivial
  | error e s' => exact ⟨trivial, h s e s' hrun⟩

end Unrefused

namespace Read

/-! ## What reads fail with -/

instance : Unrefused byte := by
  refine .of_error fun c e next hread => ?_
  unfold byte at hread
  split at hread <;> cases hread
  rfl

instance (length : Nat) : Unrefused (bytes length) := by
  refine .of_error fun c e next hread => ?_
  unfold bytes at hread
  split at hread <;> cases hread
  rfl

instance {α : Type} (decode : List UInt8 → Leb128.Ending α) (tooWide : Defect) :
    Unrefused (leb128 decode tooWide) := by
  refine .of_error fun c e next hread => ?_
  unfold leb128 at hread
  split at hread <;> cases hread <;> rfl

instance (size : Nat) : Unrefused (number size) := inferInstanceAs (Unrefused (bytes size >>= _))

instance : Unrefused signedByte := inferInstanceAs (Unrefused (byte >>= _))

instance : Unrefused half := inferInstanceAs (Unrefused (number 2 >>= _))

instance : Unrefused signedHalf := inferInstanceAs (Unrefused (half >>= _))

instance : Unrefused word := inferInstanceAs (Unrefused (number 4 >>= _))

instance : Unrefused long := inferInstanceAs (Unrefused (number 8 >>= _))

instance (size : UInt8) : Unrefused (address size) := by
  unfold address
  infer_instance

instance : Unrefused unsigned := inferInstanceAs (Unrefused (leb128 _ _))

instance : Unrefused signed := inferInstanceAs (Unrefused (leb128 _ _))

instance : Unrefused unsigned32 := by
  unfold unsigned32
  infer_instance

instance : Unrefused signed32 := by
  unfold signed32
  infer_instance

end Read

namespace Expression

instance (opcode : UInt8) : Unrefused (Operation.readOperands opcode) := by
  unfold Operation.readOperands Operation.readImplicit
  split <;> infer_instance

instance (opcode : UInt8) : Unrefused (Operation.readBody opcode) := by
  have hconstant : ∀ read, Operation.readConstant? opcode = some read → Unrefused read := by
    intro read h
    unfold Operation.readConstant? at h
    split at h <;> cases h <;> infer_instance
  unfold Operation.readBody
  split
  · infer_instance
  split
  · infer_instance
  split
  · infer_instance
  split
  · infer_instance
  · have := hconstant _ ‹_›
    infer_instance
  · infer_instance

instance : Unrefused Operation.read := inferInstanceAs (Unrefused (Read.byte >>= _))

variable {info : DebugInfo} {unit : UInt32} {expression : List UInt8}

theorem isRefusal_of_addressAt {sections : Sections} {bases : UnitBases} {index : UInt64} {e : Fault}
    (h : sections.addressAt bases index = .error e) : e.isRefusal = false := by
  unfold Sections.addressAt at h
  simp only at h
  split at h
  · cases h
    rfl
  · unfold Read.eval at h
    split at h
    · cases h
    · rename_i hread
      cases h
      exact Unrefused.isRefusal_eq hread

theorem isRefusal_of_compileOperation {operation : Operation} {e : Fault}
    (h : compileOperation info unit operation = .error e) : e.isRefusal = false := by
  unfold compileOperation at h
  split at h <;> try cases h
  split at h
  · cases h
    rfl
  · rename_i summary _
    cases haddress : info.sections.addressAt summary.bases _ with
    | error =>
      rw [haddress] at h
      cases h
      exact isRefusal_of_addressAt haddress
    | ok address =>
      rw [haddress] at h
      cases h

/-! ## Where compiling stops -/

/-- An operation is to be compiled: no conditional ends in front of it, or should have ended before it. -/
structure Due (expression : List UInt8) (position : Nat) (target : Option Nat) (opcode : UInt8)
    (operation : Operation) (next : Cursor) : Prop where
  inside : position < expression.length
  waiting : ∀ place, target = some place → position < place
  decoded : Operation.read (.place region expression.toArray position) = .ok (opcode, operation) next

/-- The operations before a byte are compiled to words, and maybe a conditional is open there. -/
inductive Arrives (info : DebugInfo) (unit : UInt32) (expression : List UInt8) :
    (position : Nat) → (target : Option Nat) → List Word → Prop
  | start : Arrives info unit expression 0 none []
  | close {position : Nat} {made : List Word} (arrives : Arrives info unit expression position (some position) made) :
      Arrives info unit expression position none (made ++ [.endIf])
  | words {position : Nat} {target : Option Nat} {opcode : UInt8} {operation : Operation} {next : Cursor}
      {made more : List Word} (arrives : Arrives info unit expression position target made)
      (due : Due expression position target opcode operation next)
      (compiled : compileOperation info unit operation = .ok (.words more)) :
      Arrives info unit expression next.position target (made ++ more)
  | branch {position : Nat} {opcode : UInt8} {operation : Operation} {next : Cursor} {made : List Word}
      {test : Word} {displacement : Int16} (arrives : Arrives info unit expression position none made)
      (due : Due expression position none opcode operation next)
      (compiled : compileOperation info unit operation = .ok (.branch test displacement))
      (forward : ¬ displacement < 0) :
      Arrives info unit expression next.position (some (next.position + displacement.toInt.toNat))
        (made ++ [test, .ifNonzero])

/--
The operation at a byte is not translated, after some words. It has no words, or it is a branch that goes
back or starts inside a conditional.
-/
inductive StopsAt (info : DebugInfo) (unit : UInt32) (expression : List UInt8) (position : Nat)
    (opcode : UInt8) : (made : List Word) → Fault → Prop
  | untranslated {target : Option Nat} {operation : Operation} {next : Cursor} {made leftover : List Word}
      (arrives : Arrives info unit expression position target made)
      (due : Due expression position target opcode operation next)
      (compiled : compileOperation info unit operation = .ok (.refused leftover)) :
      StopsAt info unit expression position opcode (made ++ leftover) (.unsupportedOpcode opcode position)
  | backward {target : Option Nat} {operation : Operation} {next : Cursor} {made : List Word} {test : Word}
      {displacement : Int16} (arrives : Arrives info unit expression position target made)
      (due : Due expression position target opcode operation next)
      (compiled : compileOperation info unit operation = .ok (.branch test displacement))
      (backward : displacement < 0) :
      StopsAt info unit expression position opcode made (.negativeBranch displacement)
  | nested {place : Nat} {operation : Operation} {next : Cursor} {made : List Word} {test : Word}
      {displacement : Int16} (arrives : Arrives info unit expression position (some place) made)
      (due : Due expression position (some place) opcode operation next)
      (compiled : compileOperation info unit operation = .ok (.branch test displacement))
      (forward : ¬ displacement < 0) : StopsAt info unit expression position opcode made .nestedBranch

variable {position place : Nat} {target : Option Nat} {opcode : UInt8} {operation : Operation} {next : Cursor}
  {made : List Word} {fault : Fault}

theorem opcode_of_read {found : UInt8 × Operation}
    (h : Operation.read (.place region expression.toArray position) = .ok found next) :
    expression[position]? = some found.1 ∧ position < next.position := by
  constructor
  · simp only [Operation.read, run_bind_eq_ok_iff, Read.run_byte_eq_ok_iff, run_pure_eq_ok_iff] at h
    obtain ⟨opcode, _, ⟨-, hbyte, -⟩, operation, _, -, rfl, -⟩ := h
    rwa [Cursor.place, List.getElem?_toArray] at hbyte
  · refine Read.position_lt_of_byte (P := fun _ => True) (fun opcode => ?_) h
    exact (Operation.gives_readBody opcode).bind fun _ _ => .pure trivial

namespace StopsAt

theorem isRefusal (h : StopsAt info unit expression position opcode made fault) : fault.isRefusal = true := by
  cases h <;> rfl

theorem opcode_eq (h : StopsAt info unit expression position opcode made fault) :
    expression[position]? = some opcode := by
  cases h with
  | untranslated _ due _ => exact (opcode_of_read due.decoded).1
  | backward _ due _ _ => exact (opcode_of_read due.decoded).1
  | nested _ due _ _ => exact (opcode_of_read due.decoded).1

end StopsAt

/-! ### The loop goes through these places -/

namespace CompiledWords

@[simp]
theorem after_after (front back : List Word) (t : CompiledWords) :
    after front (after back t) = after (front ++ back) t := by
  simp [after]

@[simp]
theorem atEnd_place (expression : List UInt8) (position : Nat) :
    (Cursor.place region expression.toArray position).atEnd = decide (expression.length ≤ position) := by
  simp [Cursor.atEnd, Cursor.place]

theorem fromCursor_close (h : position ≤ expression.length) (budget : Nat) :
    fromCursor info unit (budget + 1) (some position) (.place region expression.toArray position) =
      after [.endIf] (fromCursor info unit (budget + 1) none (.place region expression.toArray position)) := by
  by_cases hend : expression.length ≤ position
  · have hlimit : position = (Cursor.place region expression.toArray position).limit := by
      simp only [Cursor.place, List.size_toArray]
      omega
    simp [fromCursor, atEnd_place, hend, atEnd, ← hlimit, after]
  · have hhere : (Cursor.place region expression.toArray position).position = position := rfl
    simp only [fromCursor, atEnd_place, hend, decide_false, closeHere, hhere]
    rfl

theorem closeHere_waiting (h : ∀ place, target = some place → position < place) :
    closeHere (.place region expression.toArray position) target = .ok ([], target) := by
  cases target with
  | none => rfl
  | some place =>
    have hlt := h place rfl
    have hne : place ≠ position := by omega
    have hge : ¬ place < position := by omega
    simp [closeHere, Cursor.place, hne, hge]

theorem fromCursor_due (due : Due expression position target opcode operation next) (budget : Nat) :
    fromCursor info unit (budget + 1) target (.place region expression.toArray position) =
      match compileOperation info unit operation with
      | .error fault => failed fault
      | .ok (.words words) => after words (fromCursor info unit budget target next)
      | .ok (.refused leftover) => ⟨leftover, .refused opcode (.unsupportedOpcode opcode position)⟩
      | .ok (.branch test displacement) =>
        if displacement < 0 then ⟨[], .refused opcode (.negativeBranch displacement)⟩
        else if target.isSome then ⟨[], .refused opcode .nestedBranch⟩
        else after [test, .ifNonzero] <|
          fromCursor info unit budget (some (next.position + displacement.toInt.toNat)) next := by
  have hinside : ¬ expression.length ≤ position := Nat.not_le_of_lt due.inside
  simp only [fromCursor, atEnd_place, hinside, decide_false, closeHere_waiting due.waiting, due.decoded]
  rfl

end CompiledWords

open CompiledWords

theorem Arrives.compiledWords_eq (h : Arrives info unit expression position target made) :
    position ≤ expression.length ∧ ∃ budget, expression.length ≤ position + budget ∧
      compiledWords info unit expression =
        after made (fromCursor info unit (budget + 1) target (.place region expression.toArray position)) := by
  induction h with
  | start => exact ⟨Nat.zero_le _, expression.length, by omega, rfl⟩
  | close _ ih =>
    obtain ⟨hposition, budget, hbudget, heq⟩ := ih
    refine ⟨hposition, budget, hbudget, ?_⟩
    rw [heq, fromCursor_close hposition, after_after]
  | words _ due compiled ih =>
    obtain ⟨hposition, budget, hbudget, heq⟩ := ih
    obtain ⟨hnext, hbehind⟩ := read_next hposition due.decoded
    have hahead := (opcode_of_read due.decoded).2
    have hinside := due.inside
    -- An operation is left, so the budget is not used up.
    obtain ⟨less, rfl⟩ : ∃ less, budget = less + 1 := Nat.exists_eq_succ_of_ne_zero (by omega)
    refine ⟨hbehind, less, by omega, ?_⟩
    rw [heq, fromCursor_due due, compiled, ← hnext]
    exact after_after _ _ _
  | branch _ due compiled forward ih =>
    obtain ⟨hposition, budget, hbudget, heq⟩ := ih
    obtain ⟨hnext, hbehind⟩ := read_next hposition due.decoded
    have hahead := (opcode_of_read due.decoded).2
    have hinside := due.inside
    obtain ⟨less, rfl⟩ : ∃ less, budget = less + 1 := Nat.exists_eq_succ_of_ne_zero (by omega)
    refine ⟨hbehind, less, by omega, ?_⟩
    rw [heq, fromCursor_due due, compiled, ← hnext]
    simp only [if_neg forward, Option.isSome_none, Bool.false_eq_true, if_false]
    exact after_after _ _ _

theorem StopsAt.compiledWords_eq (h : StopsAt info unit expression position opcode made fault) :
    compiledWords info unit expression = ⟨made, .refused opcode fault⟩ := by
  cases h with
  | untranslated arrives due compiled =>
    obtain ⟨-, budget, -, heq⟩ := arrives.compiledWords_eq
    rw [heq, fromCursor_due due, compiled]
    rfl
  | backward arrives due compiled backward =>
    obtain ⟨-, budget, -, heq⟩ := arrives.compiledWords_eq
    rw [heq, fromCursor_due due, compiled]
    simp [if_pos backward, after]
  | nested arrives due compiled forward =>
    obtain ⟨-, budget, -, heq⟩ := arrives.compiledWords_eq
    rw [heq, fromCursor_due due, compiled]
    simp [if_neg forward, after]

theorem Arrives.closing {closing : List Word} {still : Option Nat}
    (h : Arrives info unit expression position target made)
    (hclose : closeHere (.place region expression.toArray position) target = .ok (closing, still)) :
    Arrives info unit expression position still (made ++ closing) ∧
      ∀ place, still = some place → position < place := by
  unfold closeHere at hclose
  split at hclose
  · cases hclose
    rw [List.append_nil]
    exact ⟨h, fun _ hwaiting => by cases hwaiting⟩
  · rename_i place
    split at hclose
    · rename_i heq
      cases hclose
      have hhere : place = position := heq
      subst hhere
      exact ⟨h.close, fun _ hwaiting => by cases hwaiting⟩
    · rename_i hne
      split at hclose
      · cases hclose
      · rename_i hge
        cases hclose
        rw [List.append_nil]
        refine ⟨h, ?_⟩
        rintro _ ⟨⟩
        have hhere : (Cursor.place region expression.toArray position).position = position := rfl
        omega

theorem due_of_refused {budget : Nat} (harrives : Arrives info unit expression position target made)
    (h : (fromCursor info unit (budget + 1) target (.place region expression.toArray position)).ending =
      .refused opcode fault) :
    ∃ closing still found operation next, Arrives info unit expression position still (made ++ closing) ∧
      Due expression position still found operation next ∧
      fromCursor info unit (budget + 1) target (.place region expression.toArray position) =
        after closing (fromCursor info unit (budget + 1) still (.place region expression.toArray position)) := by
  by_cases hend : expression.length ≤ position
  · simp only [fromCursor, atEnd_place, hend, decide_true, if_true] at h
    unfold atEnd at h
    split at h
    · cases h
    · split at h <;> cases h
  have hinside : position < expression.length := Nat.lt_of_not_le hend
  unfold fromCursor at h ⊢
  simp only [atEnd_place, hend, decide_false, Bool.false_eq_true, if_false] at h ⊢
  cases hclose : closeHere (.place region expression.toArray position) target with
  | error e =>
    rw [hclose] at h
    cases h
  | ok closed =>
    obtain ⟨closing, still⟩ := closed
    obtain ⟨harrives, hwaiting⟩ := harrives.closing hclose
    simp only [hclose] at h
    cases hread : Operation.read (.place region expression.toArray position) with
    | error e next =>
      simp only [hread] at h
      cases h
    | ok read next =>
      refine ⟨closing, still, _, _, next, harrives, ⟨hinside, hwaiting, hread⟩, ?_⟩
      simp only [closeHere_waiting hwaiting]
      rfl

theorem stopsAt_of_due {budget : Nat} {read : UInt8}
    (ih : ∀ position target made, Arrives info unit expression position target made → position ≤ expression.length →
      (fromCursor info unit budget target (.place region expression.toArray position)).ending = .refused opcode fault →
      ∃ place, StopsAt info unit expression place opcode
        (made ++ (fromCursor info unit budget target (.place region expression.toArray position)).words) fault)
    (harrives : Arrives info unit expression position target made)
    (due : Due expression position target read operation next)
    (h : (fromCursor info unit (budget + 1) target (.place region expression.toArray position)).ending =
      .refused opcode fault) :
    ∃ place, StopsAt info unit expression place opcode
      (made ++ (fromCursor info unit (budget + 1) target (.place region expression.toArray position)).words) fault := by
  obtain ⟨hnext, hbehind⟩ := read_next (Nat.le_of_lt due.inside) due.decoded
  rw [fromCursor_due due] at h ⊢
  cases compiled : compileOperation info unit operation with
  | error e =>
    rw [compiled] at h
    cases h
  | ok result =>
    simp only [compiled] at h ⊢
    cases result with
    | words more =>
      rw [hnext] at h ⊢
      have hrest := ih _ _ _ (harrives.words due compiled) hbehind h
      rwa [List.append_assoc] at hrest
    | refused leftover =>
      cases h
      exact ⟨position, .untranslated harrives due compiled⟩
    | branch test displacement =>
      simp only at h ⊢
      by_cases hforward : displacement < 0
      · rw [if_pos hforward] at h ⊢
        cases h
        exact ⟨position, by simpa only [List.append_nil] using .backward harrives due compiled hforward⟩
      rw [if_neg hforward] at h ⊢
      cases target with
      | some place =>
        simp only [Option.isSome_some, if_true] at h ⊢
        cases h
        exact ⟨position, by simpa only [List.append_nil] using .nested harrives due compiled hforward⟩
      | none =>
        simp only [Option.isSome_none, Bool.false_eq_true, if_false] at h ⊢
        rw [hnext] at h ⊢
        have hrest := ih _ _ _ (harrives.branch due compiled hforward) hbehind h
        rwa [List.append_assoc] at hrest

theorem stopsAt_of_fromCursor {budget : Nat} (harrives : Arrives info unit expression position target made)
    (hposition : position ≤ expression.length)
    (h : (fromCursor info unit budget target (.place region expression.toArray position)).ending =
      .refused opcode fault) :
    ∃ place, StopsAt info unit expression place opcode
      (made ++ (fromCursor info unit budget target (.place region expression.toArray position)).words) fault := by
  induction budget generalizing position target made with
  | zero => cases h
  | succ budget ih =>
    obtain ⟨closing, still, _, _, _, harrives, due, heq⟩ := due_of_refused harrives h
    rw [heq] at h ⊢
    have hstops := stopsAt_of_due (fun _ _ _ => ih) harrives due h
    rwa [List.append_assoc] at hstops

/-- Compiling stops at an operation just where the words of the expression end for it. -/
theorem stopsAt_iff : (∃ position, StopsAt info unit expression position opcode made fault) ↔
    compiledWords info unit expression = ⟨made, .refused opcode fault⟩ := by
  constructor
  · rintro ⟨position, h⟩
    exact h.compiledWords_eq
  · intro h
    have hstart : Arrives info unit expression 0 none [] := .start
    have hstops := stopsAt_of_fromCursor hstart (Nat.zero_le _) (congrArg CompiledWords.ending h)
    have hwords := congrArg CompiledWords.words h
    rw [compiledWords] at hwords
    simpa only [List.nil_append, hwords] using hstops

/-! ## What the words are, and what they fail with -/

/-- No word is a mark, and the words are not given up for an operation that is not translated. -/
structure CompiledWords.Sound (t : CompiledWords) : Prop where
  unmarked : ∀ word ∈ t.words, word.isUnsupported = false
  failure : ∀ fault, t.ending = .failed fault → fault.isRefusal = false

theorem isUnsupported_of_translated {word : Word} (h : word.Translated) : word.isUnsupported = false := by
  cases word <;> first | rfl | exact h.elim

namespace CompiledWords

theorem sound_failed (h : fault.isRefusal = false) : (failed fault).Sound := by
  refine ⟨List.forall_mem_nil _, ?_⟩
  rintro _ ⟨⟩
  exact h

theorem sound_refused {leftover : List Word} (h : ∀ word ∈ leftover, word.isUnsupported = false) :
    Sound ⟨leftover, .refused opcode fault⟩ := ⟨h, fun _ hfailed => by cases hfailed⟩

theorem Sound.after {front : List Word} {t : CompiledWords} (h : ∀ word ∈ front, word.isUnsupported = false)
    (ht : t.Sound) : (after front t).Sound :=
  ⟨List.forall_mem_append.mpr ⟨h, ht.unmarked⟩, ht.failure⟩

theorem sound_atEnd (c : Cursor) (target : Option Nat) : (CompiledWords.atEnd c target).Sound := by
  unfold CompiledWords.atEnd
  split
  · exact ⟨List.forall_mem_nil _, fun _ hfailed => by cases hfailed⟩
  · split
    · exact ⟨List.forall_mem_singleton.mpr rfl, fun _ hfailed => by cases hfailed⟩
    · exact sound_failed rfl

theorem isRefusal_of_closeHere {c : Cursor} {e : Fault} (h : closeHere c target = .error e) :
    e.isRefusal = false := by
  unfold closeHere at h
  split at h
  · cases h
  · split at h
    · cases h
    · split at h <;> cases h
      rfl

theorem isUnsupported_of_closeHere {c : Cursor} {closing : List Word} {still : Option Nat}
    (h : closeHere c target = .ok (closing, still)) : ∀ word ∈ closing, word.isUnsupported = false := by
  unfold closeHere at h
  split at h
  · cases h
    exact List.forall_mem_nil _
  · split at h
    · cases h
      exact List.forall_mem_singleton.mpr rfl
    · split at h <;> cases h
      exact List.forall_mem_nil _

theorem sound_fromCursor (budget : Nat) (target : Option Nat) (c : Cursor) :
    (fromCursor info unit budget target c).Sound := by
  induction budget generalizing target c with
  | zero => exact sound_failed rfl
  | succ budget ih =>
    unfold fromCursor
    split
    · exact sound_atEnd c target
    split
    · rename_i hclose
      exact sound_failed (isRefusal_of_closeHere hclose)
    rename_i hclose
    refine .after (isUnsupported_of_closeHere hclose) ?_
    split
    · rename_i hread
      exact sound_failed (Unrefused.isRefusal_eq hread)
    rename_i opcode operation next hread
    have hoperation := (gives_read _ _ _ hread).2
    split
    · rename_i hcompiled
      exact sound_failed (isRefusal_of_compileOperation hcompiled)
    · rename_i words hcompiled
      have htranslated := compileOperation_translated hoperation hcompiled
      exact .after (fun word hword => isUnsupported_of_translated (htranslated word hword)) (ih _ _)
    · rename_i leftover hcompiled
      have htranslated := compileOperation_translated hoperation hcompiled
      exact sound_refused fun word hword => isUnsupported_of_translated (htranslated word hword)
    · rename_i test displacement hcompiled
      have htranslated : test.Translated := compileOperation_translated hoperation hcompiled
      split
      · exact sound_refused (List.forall_mem_nil _)
      split
      · exact sound_refused (List.forall_mem_nil _)
      refine .after ?_ (ih _ _)
      exact forall_mem_pair (isUnsupported_of_translated htranslated) rfl

end CompiledWords

/-! ## The modes -/

/-- The mark at the end of a program that stops at an operation, and none in front of it. -/
def MarkedAt (opcode : UInt8) (made : List Word) (program : Program) : Prop :=
  program = made ++ [.unsupported opcode] ∧ Program.hasUnsupported made = false

/-- How the programs and the faults of the two modes belong together. -/
structure ModesAgree (info : DebugInfo) (unit : UInt32) (expression : List UInt8) : Prop where
  /-- The whole expression is translated in one mode just if it is in the other one, to the same program. -/
  complete : ∀ program, compile info .strict unit expression = .ok program ↔
    compile info .diagnostic unit expression = .ok program ∧ program.hasUnsupported = false
  /-- One mode fails for an operation just if the other one ends with the mark of an operation. -/
  stopped : (∃ fault, fault.isRefusal = true ∧ compile info .strict unit expression = .error fault) ↔
    ∃ opcode made program, compile info .diagnostic unit expression = .ok program ∧ MarkedAt opcode made program
  /-- The fault and the mark are those of the operation where both modes stop. -/
  named : ∀ fault, fault.isRefusal = true →
    (compile info .strict unit expression = .error fault ↔
      ∃ position opcode made program, StopsAt info unit expression position opcode made fault ∧
        expression[position]? = some opcode ∧
        compile info .diagnostic unit expression = .ok program ∧ MarkedAt opcode made program)
  /-- What else is wrong is wrong in both modes. -/
  failed : ∀ fault, fault.isRefusal = false →
    (compile info .strict unit expression = .error fault ↔
      compile info .diagnostic unit expression = .error fault)
  /-- The fault of an operation is a fault in one mode only. -/
  kept : ∀ fault, compile info .diagnostic unit expression = .error fault → fault.isRefusal = false

theorem hasUnsupported_eq (h : ∀ word ∈ made, word.isUnsupported = false) : Program.hasUnsupported made = false := by
  simpa [Program.hasUnsupported] using h

@[simp]
theorem hasUnsupported_marked (made : List Word) (opcode : UInt8) :
    Program.hasUnsupported (made ++ [.unsupported opcode]) = true := by
  simp [Program.hasUnsupported, Word.isUnsupported]

theorem MarkedAt.hasUnsupported_eq {program : Program} (h : MarkedAt opcode made program) :
    program.hasUnsupported = true := by
  obtain ⟨rfl, -⟩ := h
  exact hasUnsupported_marked made opcode

theorem modes_cases (info : DebugInfo) (unit : UInt32) (expression : List UInt8) :
    (∃ program : Program, program.hasUnsupported = false ∧ ∀ mode, compile info mode unit expression = .ok program) ∨
      (∃ fault, fault.isRefusal = false ∧ ∀ mode, compile info mode unit expression = .error fault) ∨
      ∃ position opcode made fault program, StopsAt info unit expression position opcode made fault ∧
        compile info .strict unit expression = .error fault ∧
        compile info .diagnostic unit expression = .ok program ∧ MarkedAt opcode made program := by
  have hsound : (compiledWords info unit expression).Sound := sound_fromCursor _ _ _
  have hunmarked := hasUnsupported_eq hsound.unmarked
  cases hwords : compiledWords info unit expression with
  | mk made ending =>
  rw [hwords] at hsound hunmarked
  cases ending with
  | complete =>
    refine .inl ⟨made, hunmarked, fun mode => ?_⟩
    simp only [compile, hwords, program]
  | failed fault =>
    refine .inr (.inl ⟨fault, hsound.failure fault rfl, fun mode => ?_⟩)
    simp only [compile, hwords, program]
  | refused opcode fault =>
    obtain ⟨position, hstops⟩ := stopsAt_iff.mpr hwords
    refine .inr (.inr ⟨position, opcode, made, fault, _, hstops, ?_, ?_, rfl, hunmarked⟩)
    · simp only [compile, hwords, program]
    · simp only [compile, hwords, program]

theorem ne_refusal (hfault : fault.isRefusal = false) {other : Fault} (hother : other.isRefusal = true) :
    fault ≠ other := by
  rintro rfl
  exact Bool.false_ne_true (hfault.symm.trans hother)

namespace ModesAgree

theorem of_complete {program : Program} (hclean : program.hasUnsupported = false)
    (hmodes : ∀ mode, compile info mode unit expression = .ok program) : ModesAgree info unit expression := by
  have hunmarked : ∀ opcode made, ¬ MarkedAt opcode made program := fun opcode made h =>
    Bool.false_ne_true (hclean.symm.trans h.hasUnsupported_eq)
  constructor <;> rw [hmodes .diagnostic] <;> try rw [hmodes .strict]
  · intro other
    refine ⟨?_, And.left⟩
    rintro ⟨⟩
    exact ⟨rfl, hclean⟩
  · refine ⟨?_, ?_⟩
    · rintro ⟨_, -, ⟨⟩⟩
    · rintro ⟨opcode, made, _, ⟨⟩, h⟩
      exact absurd h (hunmarked opcode made)
  · refine fun fault _ => ⟨nofun, ?_⟩
    rintro ⟨_, opcode, made, _, -, -, ⟨⟩, h⟩
    exact absurd h (hunmarked opcode made)
  · exact fun fault _ => Iff.rfl
  · nofun

theorem of_failed (hfault : fault.isRefusal = false)
    (hmodes : ∀ mode, compile info mode unit expression = .error fault) : ModesAgree info unit expression := by
  constructor <;> rw [hmodes .diagnostic] <;> try rw [hmodes .strict]
  · exact fun program => ⟨nofun, nofun⟩
  · refine ⟨?_, ?_⟩
    · rintro ⟨other, hother, heq⟩
      exact absurd (Except.error.inj heq) (ne_refusal hfault hother)
    · rintro ⟨_, _, _, ⟨⟩, -⟩
  · refine fun other hother => ⟨fun heq => ?_, ?_⟩
    · exact absurd (Except.error.inj heq) (ne_refusal hfault hother)
    · rintro ⟨_, _, _, _, -, -, ⟨⟩, -⟩
  · exact fun other _ => Iff.rfl
  · intro other heq
    rw [← Except.error.inj heq]
    exact hfault

theorem of_stopped {program : Program} (hstops : StopsAt info unit expression position opcode made fault)
    (hstrict : compile info .strict unit expression = .error fault)
    (hdiagnostic : compile info .diagnostic unit expression = .ok program) (hmarked : MarkedAt opcode made program) :
    ModesAgree info unit expression := by
  constructor <;> rw [hdiagnostic] <;> try rw [hstrict]
  · refine fun other => ⟨nofun, ?_⟩
    rintro ⟨⟨⟩, hclean⟩
    exact absurd (hclean.symm.trans hmarked.hasUnsupported_eq) Bool.false_ne_true
  · exact ⟨fun _ => ⟨opcode, made, program, rfl, hmarked⟩, fun _ => ⟨fault, hstops.isRefusal, rfl⟩⟩
  · refine fun other _ => ⟨fun heq => ?_, ?_⟩
    · rw [← Except.error.inj heq]
      exact ⟨position, opcode, made, program, hstops, hstops.opcode_eq, rfl, hmarked⟩
    · rintro ⟨_, _, _, _, hother, -⟩
      cases hstops.compiledWords_eq.symm.trans hother.compiledWords_eq
      rfl
  · refine fun other hother => ⟨fun heq => ?_, nofun⟩
    exact absurd (Except.error.inj heq).symm (ne_refusal hother hstops.isRefusal)
  · nofun

end ModesAgree

theorem modesAgree_compile (info : DebugInfo) (unit : UInt32) (expression : List UInt8) :
    ModesAgree info unit expression := by
  rcases modes_cases info unit expression with ⟨program, hclean, hmodes⟩ | ⟨fault, hfault, hmodes⟩ |
    ⟨position, opcode, made, fault, program, hstops, hstrict, hdiagnostic, hmarked⟩
  · exact .of_complete hclean hmodes
  · exact .of_failed hfault hmodes
  · exact .of_stopped hstops hstrict hdiagnostic hmarked

/-! ## The tally -/

/-- A call of the compiler. -/
structure Call where
  unit : UInt32
  expression : List UInt8
  deriving DecidableEq, Repr

/-- The call stops at an operation with the opcode. -/
def Call.Stops (info : DebugInfo) (opcode : UInt8) (call : Call) : Prop :=
  ∃ position made fault, StopsAt info call.unit call.expression position opcode made fault

theorem refusedOpcode?_eq_some (call : Call) :
    (compiledWords info call.unit call.expression).refusedOpcode? = some opcode ↔ call.Stops info opcode := by
  constructor
  · intro h
    cases hwords : compiledWords info call.unit call.expression with
    | mk made ending =>
    rw [hwords] at h
    cases ending with
    | refused found fault =>
      cases h
      obtain ⟨position, hstops⟩ := stopsAt_iff.mpr hwords
      exact ⟨position, made, fault, hstops⟩
    | complete => cases h
    | failed fault => cases h
  · rintro ⟨position, made, fault, hstops⟩
    rw [hstops.compiledWords_eq]
    rfl

instance (info : DebugInfo) (opcode : UInt8) (call : Call) : Decidable (call.Stops info opcode) :=
  decidable_of_iff _ (refusedOpcode?_eq_some call)

namespace Tally

/-- Every opcode stands behind the smaller ones, once. -/
def Sorted (tally : Tally) : Prop := tally.Pairwise fun a b => a.1 < b.1

variable {tally : Tally} {key : UInt8}

theorem mem_keys_add {entry : UInt8 × Nat} (h : entry ∈ tally.add opcode) :
    entry.1 = opcode ∨ ∃ known ∈ tally, entry.1 = known.1 := by
  induction tally with
  | nil =>
    rw [add, List.mem_singleton] at h
    exact .inl (congrArg Prod.fst h)
  | cons first rest ih =>
    rw [add] at h
    split at h
    · rcases List.mem_cons.mp h with rfl | h
      · exact .inl rfl
      · exact .inr ⟨entry, h, rfl⟩
    split at h
    · rcases List.mem_cons.mp h with rfl | h
      · exact .inr ⟨first, List.mem_cons_self, rfl⟩
      · exact .inr ⟨entry, List.mem_cons_of_mem _ h, rfl⟩
    · rcases List.mem_cons.mp h with rfl | h
      · exact .inr ⟨_, List.mem_cons_self, rfl⟩
      · rcases ih h with heq | ⟨known, hknown, heq⟩
        · exact .inl heq
        · exact .inr ⟨known, List.mem_cons_of_mem _ hknown, heq⟩

theorem Sorted.add (h : tally.Sorted) (opcode : UInt8) : (tally.add opcode).Sorted := by
  induction tally with
  | nil => exact List.pairwise_singleton _ _
  | cons first rest ih =>
    obtain ⟨known, count⟩ := first
    obtain ⟨hfirst, hrest⟩ := List.pairwise_cons.mp h
    rw [Tally.add]
    split
    case isTrue hlt =>
      refine List.pairwise_cons.mpr ⟨?_, h⟩
      intro entry hentry
      rcases List.mem_cons.mp hentry with rfl | hentry
      · exact hlt
      · exact UInt8.lt_trans hlt (hfirst entry hentry)
    case isFalse hge =>
      split
      · exact List.pairwise_cons.mpr ⟨hfirst, hrest⟩
      · rename_i hne
        refine List.pairwise_cons.mpr ⟨?_, ih hrest⟩
        intro entry hentry
        rcases mem_keys_add hentry with heq | ⟨other, hother, heq⟩
        · have hlt : known < opcode := by grind
          simpa only [heq] using hlt
        · simpa only [heq] using hfirst other hother

theorem lookup_cons (known : UInt8) (count : Nat) (rest : Tally) (key : UInt8) :
    List.lookup key ((known, count) :: rest) = if key = known then some count else List.lookup key rest := by
  by_cases h : key = known
  · subst h
    simp
  · have hne : (key == known) = false := beq_false_of_ne h
    rw [if_neg h, List.lookup_cons, hne]

theorem lookup_eq_none (h : ∀ entry ∈ tally, key < entry.1) : tally.lookup key = none := by
  rw [List.lookup_eq_none_iff]
  intro entry hentry
  have hlt := h entry hentry
  grind

theorem lookup_add (h : tally.Sorted) (opcode key : UInt8) : (tally.add opcode).lookup key =
    if key = opcode then some ((tally.lookup opcode).getD 0 + 1) else tally.lookup key := by
  induction tally with
  | nil => exact lookup_cons opcode 1 [] key
  | cons first rest ih =>
    obtain ⟨known, count⟩ := first
    obtain ⟨hfirst, hrest⟩ := List.pairwise_cons.mp h
    rw [add]
    split
    case isTrue hlt =>
      have hbefore : List.lookup opcode ((known, count) :: rest) = none := by
        refine lookup_eq_none fun entry hentry => ?_
        rcases List.mem_cons.mp hentry with rfl | hentry
        · exact hlt
        · exact UInt8.lt_trans hlt (hfirst entry hentry)
      rw [lookup_cons, hbefore]
      rfl
    case isFalse =>
      split
      case isTrue heq =>
        subst heq
        simp only [lookup_cons, if_true, Option.getD_some]
        split <;> rfl
      case isFalse hne =>
        rw [lookup_cons, ih hrest, lookup_cons, lookup_cons, if_neg hne]
        by_cases hkey : key = known
        · have hother : key ≠ opcode := fun heq => hne (heq.symm.trans hkey)
          rw [if_pos hkey, if_neg hother, if_pos hkey]
        · rw [if_neg hkey, if_neg hkey]

/-- How often something was counted, as a tally says it: nothing is said of what never was. -/
def counted (count : Nat) : Option Nat := if count = 0 then none else some count

theorem counted_add_one (count : Nat) : some ((counted count).getD 0 + 1) = counted (count + 1) := by
  cases count <;> rfl

theorem lookup_foldl (opcodes : List UInt8) {count : Nat} (h : tally.Sorted)
    (hcount : tally.lookup key = counted count) :
    (opcodes.foldl (fun tally opcode => add opcode tally) tally).Sorted ∧
      (opcodes.foldl (fun tally opcode => add opcode tally) tally).lookup key =
        counted (count + opcodes.count key) := by
  induction opcodes generalizing tally count with
  | nil => exact ⟨h, hcount⟩
  | cons opcode opcodes ih =>
    rw [List.foldl_cons]
    by_cases hkey : key = opcode
    · subst hkey
      have hadd : (tally.add key).lookup key = counted (count + 1) := by
        rw [lookup_add h, if_pos rfl, hcount, counted_add_one]
      rw [List.count_cons_self, Nat.add_comm _ 1, ← Nat.add_assoc]
      exact ih (h.add key) hadd
    · have hadd : (tally.add opcode).lookup key = counted count := by
        rw [lookup_add h, if_neg hkey, hcount]
      rw [List.count_cons_of_ne (Ne.symm hkey)]
      exact ih (h.add opcode) hadd

theorem lookup_ofCompiled (info : DebugInfo) (calls : List Call) (opcode : UInt8) :
    (ofCompiled (calls.map fun call => compiledWords info call.unit call.expression)).Sorted ∧
      (ofCompiled (calls.map fun call => compiledWords info call.unit call.expression)).lookup opcode =
        counted (calls.countP fun call => call.Stops info opcode) := by
  have hcount : ((calls.map fun call => compiledWords info call.unit call.expression).filterMap
      CompiledWords.refusedOpcode?).count opcode = calls.countP fun call => call.Stops info opcode := by
    rw [List.filterMap_map, List.count_filterMap]
    refine List.countP_congr fun call _ => ?_
    simp [refusedOpcode?_eq_some]
  rw [← hcount, ← Nat.zero_add (List.count _ _)]
  exact lookup_foldl _ .nil rfl

end Tally

/--
The mode of compiling decides only what becomes of an expression that stops at an operation, and for any calls
the tally says how many stopped at each opcode.
-/
theorem modes_agree (info : DebugInfo) :
    (∀ unit expression, ModesAgree info unit expression) ∧
      ∀ calls : List Call,
        let tally := Tally.ofCompiled (calls.map fun call => compiledWords info call.unit call.expression)
        tally.Sorted ∧ ∀ opcode, tally.lookup opcode =
          Tally.counted (calls.countP fun call => call.Stops info opcode) := by
  refine ⟨modesAgree_compile info, fun calls => ⟨(Tally.lookup_ofCompiled info calls 0).1, fun opcode => ?_⟩⟩
  exact (Tally.lookup_ofCompiled info calls opcode).2

/-- A branch back, an operation without words in a call that stops there, and a call that ends before it. -/
example : Tally.ofCompiled (([⟨0, [0x2f, 0xfd, 0xff]⟩, ⟨0, [0x30, 0xa0, 0x2f]⟩, ⟨8, [0x03, 0x00]⟩] : List Call).map
    fun call => compiledWords ⟨⟨{}, #[]⟩, #[], [], ⟨#[], #[]⟩⟩ call.unit call.expression) =
    [(0x2f, 1), (0xa0, 1)] := by decide +kernel

end Expression

end FirmwareDebug
