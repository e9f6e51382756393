import FirmwareDebug.Proofs.Expression.Operations
import FirmwareDebug.Proofs.Machine

/-!
# Programs do what their expressions do

Whenever an expression compiles, its program ends every run as the run from the bytes ends it: with
the same fault if there is one, the same machine and the same state of the host.

A branch goes to a place in the bytes, and its conditional ends at a place in the words. `Compiles`
keeps the two together: while a conditional is open it carries the byte that the branch goes to.
-/

namespace FirmwareDebug.Expression

open Direct Run

/-! ## Compilation as a relation -/

/--
The words from a byte of an expression to its end. While a conditional is open, `target` is the byte
where it ends.
-/
inductive Compiles (info : DebugInfo) (unit : UInt32) (expression : List UInt8) :
    (position : Nat) → (target : Option Nat) → List Word → Prop
  | finished : Compiles info unit expression expression.length none []
  | close {position : Nat} {rest : List Word} (closed : Compiles info unit expression position none rest) :
      Compiles info unit expression position (some position) (.endIf :: rest)
  | words {position : Nat} {target : Option Nat} {opcode : UInt8} {operation : Operation} {next : Cursor}
      {made rest : List Word}
      (inside : position < expression.length)
      (decoded : Operation.read (.place region expression.toArray position) = .ok (opcode, operation) next)
      (compiled : compileOperation info unit operation = .ok (.words made))
      (after : Compiles info unit expression next.position target rest) :
      Compiles info unit expression position target (made ++ rest)
  | branch {position : Nat} {opcode : UInt8} {operation : Operation} {next : Cursor} {test : Word}
      {displacement : Int16} {rest : List Word}
      (inside : position < expression.length)
      (decoded : Operation.read (.place region expression.toArray position) = .ok (opcode, operation) next)
      (compiled : compileOperation info unit operation = .ok (.branch test displacement))
      (forward : 0 ≤ displacement)
      (after : Compiles info unit expression next.position
        (some (next.position + displacement.toInt.toNat)) rest) :
      Compiles info unit expression position none (test :: .ifNonzero :: rest)

variable {info : DebugInfo} {unit : UInt32} {expression : List UInt8}

theorem gives_read : Read.Gives Operation.read fun found => found.2.Translated :=
  Read.gives_byte.bind fun opcode _ => (Operation.gives_readBody opcode).bind fun _ h => .pure h

theorem read_next {position : Nat} {found : UInt8 × Operation} {next : Cursor}
    (hposition : position ≤ expression.length)
    (h : Operation.read (.place region expression.toArray position) = .ok found next) :
    next = .place region expression.toArray next.position ∧ next.position ≤ expression.length := by
  obtain ⟨hahead, -⟩ := gives_read _ _ _ h
  have hlimit := hahead.le_limit (by simpa [Cursor.place] using hposition)
  obtain ⟨count, rfl, -⟩ := hahead
  exact ⟨rfl, by simpa [Cursor.advance, Cursor.place] using hlimit⟩

theorem Compiles.closing {position : Nat} {target still : Option Nat} {closing rest : List Word}
    (h : CompiledWords.closeHere (.place region expression.toArray position) target = .ok (closing, still))
    (hrest : Compiles info unit expression position still rest) :
    Compiles info unit expression position target (closing ++ rest) := by
  unfold CompiledWords.closeHere at h
  split at h
  · cases h
    exact hrest
  · split at h
    · rename_i htarget
      cases h
      rw [htarget]
      exact .close hrest
    · split at h
      · cases h
      · cases h
        exact hrest

theorem compiles_atEnd {position : Nat} {target : Option Nat} (hposition : position = expression.length)
    (h : (CompiledWords.atEnd (.place region expression.toArray position) target).ending = .complete) :
    Compiles info unit expression position target
      (CompiledWords.atEnd (.place region expression.toArray position) target).words := by
  subst hposition
  unfold CompiledWords.atEnd at h ⊢
  cases target with
  | none => exact .finished
  | some target =>
    simp only at h ⊢
    split at h
    · rename_i htarget
      rw [if_pos htarget, htarget]
      exact .close .finished
    · cases h

theorem compiles_of_fromCursor {budget position : Nat} {target : Option Nat}
    (hposition : position ≤ expression.length)
    (h : (CompiledWords.fromCursor info unit budget target
      (.place region expression.toArray position)).ending = .complete) :
    Compiles info unit expression position target
      (CompiledWords.fromCursor info unit budget target
        (.place region expression.toArray position)).words := by
  induction budget generalizing target position with
  | zero => cases h
  | succ budget ih =>
    unfold CompiledWords.fromCursor at h ⊢
    by_cases hend : (Cursor.place region expression.toArray position).atEnd
    · rw [if_pos hend] at h ⊢
      refine compiles_atEnd ?_ h
      simp only [Cursor.atEnd, Cursor.place, List.size_toArray, decide_eq_true_eq] at hend
      omega
    have hinside : position < expression.length := by
      simpa [Cursor.atEnd, Cursor.place] using hend
    rw [if_neg hend] at h ⊢
    cases hclose : CompiledWords.closeHere (.place region expression.toArray position) target with
    | error fault =>
      rw [hclose] at h
      cases h
    | ok found =>
    obtain ⟨closing, still⟩ := found
    simp only [hclose] at h
    refine .closing hclose ?_
    cases hread : Operation.read (.place region expression.toArray position) with
    | error fault next =>
      simp only [hread] at h
      cases h
    | ok found next =>
    obtain ⟨opcode, operation⟩ := found
    obtain ⟨hnext, hbehind⟩ := read_next hposition hread
    simp only [hread] at h ⊢
    cases hcompiled : compileOperation info unit operation with
    | error fault =>
      simp only [hcompiled] at h
      cases h
    | ok compiled =>
    simp only [hcompiled] at h ⊢
    cases compiled with
    | words made =>
      rw [hnext] at h ⊢
      exact .words hinside hread hcompiled (ih hbehind h)
    | refused leftover => cases h
    | branch test displacement =>
      simp only at h ⊢
      by_cases hforward : displacement < 0
      · rw [if_pos hforward] at h
        cases h
      by_cases hopen : still.isSome
      · rw [if_neg hforward, if_pos hopen] at h
        cases h
      rw [if_neg hforward, if_neg hopen] at h ⊢
      rw [hnext] at h ⊢
      rw [Option.not_isSome_iff_eq_none] at hopen
      subst hopen
      exact .branch hinside hread hcompiled (Int16.not_lt.mp hforward) (ih hbehind h)

theorem compiles_of_compile {program : Program}
    (h : compile info .strict unit expression = .ok program) :
    Compiles info unit expression 0 none program := by
  unfold compile CompiledWords.program at h
  split at h
  · rename_i hending
    cases h
    exact compiles_of_fromCursor (Nat.zero_le _) hending
  · cases h
  · cases h
  · rename_i hmode
    cases hmode

/-! ## Runs -/

variable {σ : Type} {host : Host σ}

/-- A run of the machine ends as the run from a byte on ends. -/
def Does (info : DebugInfo) (unit : UInt32) (host : Host σ) (expression : List UInt8) (position : Nat)
    (run : Run σ Unit) : Prop :=
  ∀ s result, Executes info unit host expression position s result ↔ run s = result

theorem does_finished : Does info unit host expression expression.length (pure ()) := by
  intro s result
  constructor
  · intro h
    cases h with
    | finished => rfl
    | undecoded _ inside _ => exact absurd rfl inside
    | failed inside _ _ => exact absurd rfl inside
    | next inside _ _ _ => exact absurd rfl inside
  · rintro rfl
    exact .finished s

/-- One operation, and what is known of the run where it goes on. -/
theorem does_action {position behind : Nat} {action : Action σ} {run : Run σ Unit}
    (inside : position < expression.length)
    (decoded : actionAt info unit host expression position = .ok (action, behind))
    (hfailed : ∀ s e s', action.perform behind s = .error e s' → run s = .error e s')
    (hnext : ∀ s target s', action.perform behind s = .ok target s' →
      ∀ result, Executes info unit host expression target s' result ↔ run s = result) :
    Does info unit host expression position run := by
  intro s result
  constructor
  · intro h
    cases h with
    | finished => exact absurd inside (Nat.lt_irrefl _)
    | undecoded _ _ hundecoded =>
      rw [decoded] at hundecoded
      cases hundecoded
    | failed _ hdecoded hperformed =>
      rw [decoded] at hdecoded
      cases hdecoded
      exact hfailed s _ _ hperformed
    | next _ hdecoded hperformed hrest =>
      rw [decoded] at hdecoded
      cases hdecoded
      exact (hnext s _ _ hperformed _).mp hrest
  · rintro rfl
    cases hperformed : action.perform behind s with
    | error e s' =>
      rw [hfailed s e s' hperformed]
      exact .failed (Nat.ne_of_lt inside) decoded hperformed
    | ok target s' =>
      exact .next (Nat.ne_of_lt inside) decoded hperformed ((hnext s target s' hperformed _).mpr rfl)

theorem does_effect {position behind : Nat} {effect rest : Run σ Unit}
    (inside : position < expression.length)
    (decoded : actionAt info unit host expression position = .ok (.effect effect, behind))
    (hrest : Does info unit host expression behind rest) :
    Does info unit host expression position (effect >>= fun _ => rest) := by
  refine does_action inside decoded ?_ ?_
  · intro s e s' hperformed
    simp only [Action.perform, run_bind] at hperformed ⊢
    cases heffect : effect s with
    | error e' s'' =>
      rw [heffect] at hperformed
      cases hperformed
      rfl
    | ok _ s'' =>
      rw [heffect] at hperformed
      cases hperformed
  · intro s target s' hperformed result
    simp only [Action.perform, run_bind] at hperformed ⊢
    cases heffect : effect s with
    | error e' s'' =>
      rw [heffect] at hperformed
      cases hperformed
    | ok _ s'' =>
      rw [heffect] at hperformed
      cases hperformed
      exact hrest s' result

theorem does_branch {position behind : Nat} {taken : Run σ Bool} {displacement : Int16}
    {jump fall : Run σ Unit} (inside : position < expression.length)
    (decoded : actionAt info unit host expression position = .ok (.branch taken displacement, behind))
    (forward : 0 ≤ displacement)
    (hjump : Does info unit host expression (behind + displacement.toInt.toNat) jump)
    (hfall : Does info unit host expression behind fall) :
    Does info unit host expression position (taken >>= fun b => if b then jump else fall) := by
  have hperform : (Action.branch taken displacement).perform behind =
      taken >>= fun b => pure (if b then behind + displacement.toInt.toNat else behind) := by
    have htarget : (behind + displacement.toInt).toNat? = some (behind + displacement.toInt.toNat) := by
      have hnonneg : 0 ≤ displacement.toInt := Int16.le_iff_toInt_le.mp forward
      obtain ⟨n, hn⟩ := Int.eq_ofNat_of_zero_le hnonneg
      rw [hn]
      rfl
    simp only [Action.perform, htarget]
    refine bind_congr fun b => ?_
    cases b <;> rfl
  refine does_action inside decoded ?_ ?_
  · intro s e s' hperformed
    rw [hperform, run_bind] at hperformed
    rw [run_bind]
    cases htaken : taken s with
    | error e' s'' =>
      rw [htaken] at hperformed
      cases hperformed
      rfl
    | ok b s'' =>
      rw [htaken] at hperformed
      cases hperformed
  · intro s target s' hperformed result
    rw [hperform, run_bind] at hperformed
    rw [run_bind]
    cases htaken : taken s with
    | error e' s'' =>
      rw [htaken] at hperformed
      cases hperformed
    | ok b s'' =>
      rw [htaken] at hperformed
      cases hperformed
      cases b with
      | true => exact hjump s' result
      | false => exact hfall s' result

/-! ## The words do what the bytes do -/

theorem actionAt_of_read {position : Nat} {opcode : UInt8} {operation : Operation} {next : Cursor}
    {compiled : Compiled} {action : Action σ}
    (decoded : Operation.read (.place region expression.toArray position) = .ok (opcode, operation) next)
    (hcompiled : compileOperation info unit operation = .ok compiled)
    (haction : compiled.action? host = some action) :
    actionAt info unit host expression position = .ok (action, next.position) := by
  simp only [actionAt_eq, decoded, compiledAction?, hcompiled, Except.map, haction]

theorem translated_of_read {position : Nat} {opcode : UInt8} {operation : Operation} {next : Cursor}
    {compiled : Compiled}
    (decoded : Operation.read (.place region expression.toArray position) = .ok (opcode, operation) next)
    (hcompiled : compileOperation info unit operation = .ok compiled) : compiled.Translated :=
  compileOperation_translated (gives_read _ _ _ decoded).2 hcompiled

theorem plain_of_read {position : Nat} {opcode : UInt8} {operation : Operation} {next : Cursor}
    {compiled : Compiled}
    (decoded : Operation.read (.place region expression.toArray position) = .ok (opcode, operation) next)
    (hcompiled : compileOperation info unit operation = .ok compiled) : compiled.Plain :=
  (translated_of_read decoded hcompiled).plain

/--
The words do what the bytes do; and where a conditional is open, passing over them to its end leads to
what the bytes do from its target on.
-/
theorem Compiles.does {position : Nat} {target : Option Nat} {made : List Word}
    (h : Compiles info unit expression position target made) :
    Does info unit host expression position (Run.words host none made) ∧
      ∀ place, target = some place → Does info unit host expression place
        (Run.words host (some 0) made) := by
  induction h with
  | finished => exact ⟨does_finished, fun place h => nomatch h⟩
  | close closed ih =>
    refine ⟨ih.1, ?_⟩
    rintro place ⟨⟩
    exact ih.1
  | words inside decoded compiled after ih =>
    have hplain := plain_of_read decoded compiled
    refine ⟨?_, ?_⟩
    · rw [words_append_plain host _ _ hplain]
      exact does_effect inside (actionAt_of_read decoded compiled rfl) ih.1
    · intro place hplace
      rw [skip_append_plain host 0 _ _ hplain]
      exact ih.2 place hplace
  | branch inside decoded compiled forward after ih =>
    refine ⟨?_, fun place h => nomatch h⟩
    have hplain := plain_of_read decoded compiled
    rw [words_cons_plain host _ hplain]
    have hbranch := does_branch inside (actionAt_of_read decoded compiled rfl) forward
      (ih.2 _ rfl) ih.1
    simp only [bind_assoc, pure_bind, decide_eq_true_eq] at hbranch
    rw [words_ifNonzero]
    exact hbranch

/-! ## Conditionals are closed -/

/-- Every conditional has its end and holds no other one; `inside` says whether one is open. -/
def Closed : (inside : Bool) → Program → Prop
  | inside, [] => inside = false
  | inside, .ifNonzero :: rest => inside = false ∧ Closed true rest
  | inside, .endIf :: rest => inside = true ∧ Closed false rest
  | _, .frame _ :: _ => False
  | inside, _ :: rest => Closed inside rest

theorem closed_cons_plain (inside : Bool) {word : Word} (h : word.Plain) (rest : Program) :
    Closed inside (word :: rest) ↔ Closed inside rest := by
  cases word <;> first | rfl | exact h.elim

theorem closed_append_plain (inside : Bool) (front rest : Program) (h : ∀ word ∈ front, word.Plain) :
    Closed inside (front ++ rest) ↔ Closed inside rest := by
  induction front with
  | nil => rfl
  | cons word front ih =>
    rw [List.forall_mem_cons] at h
    rw [List.cons_append, closed_cons_plain inside h.1, ih h.2]

theorem Compiles.closed {position : Nat} {target : Option Nat} {made : List Word}
    (h : Compiles info unit expression position target made) : Closed target.isSome made := by
  induction h with
  | finished => rfl
  | close closed ih => exact ⟨rfl, ih⟩
  | words inside decoded compiled after ih =>
    exact (closed_append_plain _ _ _ (plain_of_read decoded compiled)).mpr ih
  | branch inside decoded compiled forward after ih =>
    exact (closed_cons_plain false (plain_of_read decoded compiled) _).mpr ⟨rfl, ih⟩

theorem Closed.cases {inside : Bool} {word : Word} {rest : Program} (h : Closed inside (word :: rest)) :
    word.Plain ∨ word = .ifNonzero ∨ word = .endIf := by
  cases word <;> first | exact .inl trivial | exact .inr (.inl rfl) | exact .inr (.inr rfl) | exact h.elim

theorem Closed.keeps (hhost : host.Keeps (fun _ => True) NotOpenIf) {inside : Bool} {made : Program}
    (h : Closed inside made) :
    (Run.words host none made).Keeps (fun _ => True) NotOpenIf ∧
      (inside = true → (Run.words host (some 0) made).Keeps (fun _ => True) NotOpenIf) := by
  induction made generalizing inside with
  | nil =>
    subst h
    exact ⟨.pure _, nofun⟩
  | cons word rest ih =>
    rcases h.cases with hplain | rfl | rfl
    · have hrest := ih ((closed_cons_plain inside hplain rest).mp h)
      constructor
      · rw [words_cons_plain host word hplain]
        exact (keeps_step (fun _ he => he) hhost word).bind fun _ => hrest.1
      · intro hinside
        rw [← List.singleton_append, skip_append_plain host 0 [word] rest
          (List.forall_mem_singleton.mpr hplain)]
        exact hrest.2 hinside
    · obtain ⟨rfl, hrest⟩ := h
      refine ⟨?_, nofun⟩
      rw [words_ifNonzero]
      have hpop : (pop .ifNonzero : Run σ UInt32).Keeps (fun _ => True) NotOpenIf :=
        keeps_pop (fun _ he => he) .ifNonzero
      refine hpop.bind fun cell => ?_
      split
      · exact (ih hrest).2 rfl
      · exact (ih hrest).1
    · obtain ⟨rfl, hrest⟩ := h
      exact ⟨(ih hrest).1, fun _ => (ih hrest).1⟩

/-! ## The theorem -/

/--
A program that an expression compiles to ends every run as the expression ends it from its first byte:
in the same state and with the same fault if there is one. Its conditionals are closed, so a run never
fails for an open one, if the host itself has no such fault.
-/
theorem compile_correct {program : Program} (h : compile info .strict unit expression = .ok program) :
    (∀ (σ : Type) (host : Host σ) (s : Machine × σ) (result : EStateM.Result Fault (Machine × σ) Unit),
      Executes info unit host expression 0 s result ↔ Run.program host program s = result) ∧
    Closed false program ∧
    ∀ (σ : Type) (host : Host σ), host.Keeps (fun _ => True) NotOpenIf →
      ∀ s s', Run.program host program s ≠ .error (.evaluation .openIf) s' := by
  have hcompiles := compiles_of_compile h
  refine ⟨fun σ host s result => hcompiles.does.1 s result, hcompiles.closed, ?_⟩
  intro σ host hhost s s' hrun
  have hkeeps := (hcompiles.closed.keeps hhost).1 s trivial
  rw [show Run.words host none program s = _ from hrun] at hkeeps
  exact hkeeps.2 rfl

/-- A branch that is taken, over one operation to the last one. -/
theorem executes_branch_taken :
    Executes ⟨⟨{}, #[]⟩, #[], [], ⟨#[], #[]⟩⟩ 0
      ⟨fun _ _ => pure [], fun _ => pure 0, fun _ => pure 0⟩
      [0x31, 0x28, 1, 0, 0x96, 0x35] 0 (({}, ()) : Machine × Unit) (.ok () ({ stack := [5] }, ())) := by
  have hcompile : compile ⟨⟨{}, #[]⟩, #[], [], ⟨#[], #[]⟩⟩ .strict 0 [0x31, 0x28, 1, 0, 0x96, 0x35] =
      .ok [.literal 1, .zeroEquals, .ifNonzero, .endIf, .literal 5] := by
    rfl
  exact ((compile_correct hcompile).1 Unit _ _ _).mpr rfl

end FirmwareDebug.Expression
