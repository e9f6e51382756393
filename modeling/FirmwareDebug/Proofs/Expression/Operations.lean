import FirmwareDebug.Proofs.Expression.Direct
import FirmwareDebug.Proofs.Read

/-!
# The words of one operation

The words that an operation is compiled to do what the operation does when it is run from its bytes.
-/

namespace FirmwareDebug

open Run

variable {σ : Type}

/-! ## Words in a row -/

/-- A word that just does something: no call frame word and no part of a conditional. -/
def Word.Plain : Word → Prop
  | .ifNonzero | .endIf | .frame _ => False
  | _ => True

/-- A word that operations are translated to. -/
def Word.Translated : Word → Prop
  | .ifNonzero | .endIf | .frame _ | .unsupported _ => False
  | _ => True

theorem Word.Translated.plain {word : Word} (h : word.Translated) : word.Plain := by
  cases word <;> trivial

theorem words_cons_plain (host : Host σ) (word : Word) (h : word.Plain) (rest : Program) :
    words host none (word :: rest) = step host word >>= fun _ => words host none rest := by
  cases word <;> first | rfl | exact h.elim

theorem words_append_plain (host : Host σ) (front rest : Program) (h : ∀ word ∈ front, word.Plain) :
    words host none (front ++ rest) = words host none front >>= fun _ => words host none rest := by
  induction front with
  | nil => rfl
  | cons word front ih =>
    rw [List.forall_mem_cons] at h
    rw [List.cons_append, words_cons_plain host word h.1, words_cons_plain host word h.1, ih h.2, bind_assoc]

theorem words_singleton_plain (host : Host σ) (word : Word) (h : word.Plain) :
    words host none [word] = step host word := by
  rw [words_cons_plain host word h]
  exact bind_pure (step host word)

theorem skip_append_plain (host : Host σ) (depth : Nat) (front rest : Program)
    (h : ∀ word ∈ front, word.Plain) :
    words host (some depth) (front ++ rest) = words host (some depth) rest := by
  induction front with
  | nil => rfl
  | cons word front ih =>
    rw [List.forall_mem_cons] at h
    rw [List.cons_append, ← ih h.2]
    cases depth <;> cases word <;> first | rfl | exact h.1.elim

theorem words_ifNonzero (host : Host σ) (rest : Program) :
    words host none (.ifNonzero :: rest) = pop .ifNonzero >>= fun cell =>
      if cell = 0 then words host (some 0) rest else words host none rest := by
  refine bind_congr fun cell => ?_
  split <;> rfl

@[simp]
theorem push_bind_pop {α : Type} (cell : UInt32) (word : Word) (k : UInt32 → Run σ α) :
    (do push cell; k (← pop word)) = k cell := rfl

namespace Expression

/-! ## What is decoded -/

/-- An operation whose word, if it is one, is a translation. -/
def Operation.Translated : Operation → Prop
  | .word w => w.Translated
  | _ => True

namespace Operation

open Read

theorem plainWord?_translated {opcode : UInt8} {word : Word} (h : plainWord? opcode = some word) :
    word.Translated := by
  unfold plainWord? at h
  split at h <;> cases h <;> trivial

theorem gives_readConstant {opcode : UInt8} {read : Read UInt32} (h : readConstant? opcode = some read) :
    Gives read fun _ => True := by
  unfold readConstant? at h
  split at h <;> cases h
  · exact gives_word
  · exact gives_map gives_byte _
  · exact gives_map gives_signedByte _
  · exact gives_map gives_half _
  · exact gives_map gives_signedHalf _
  · exact gives_word
  · exact gives_word
  · exact gives_map gives_long _
  · exact gives_map gives_long _
  · exact gives_map gives_unsigned _
  · exact gives_map gives_signed _

theorem gives_readOperands (opcode : UInt8) : Gives (readOperands opcode) Translated := by
  unfold readOperands readImplicit
  split
  · exact gives_byte.bind fun _ _ => .pure trivial
  · exact gives_unsigned.bind fun _ _ => .pure trivial
  · exact gives_signedHalf.bind fun _ _ => .pure trivial
  · exact gives_signedHalf.bind fun _ _ => .pure trivial
  · exact gives_unsigned32.bind fun _ _ => .pure trivial
  · exact gives_signed32.bind fun _ _ => .pure trivial
  · exact gives_unsigned32.bind fun _ _ => gives_signed32.bind fun _ _ => .pure trivial
  · exact gives_unsigned32.bind fun _ _ => .pure trivial
  · refine gives_byte.bind fun size _ => .pure ?_
    split <;> trivial
  · exact .pure trivial
  · exact gives_unsigned32.bind fun _ _ => gives_unsigned.bind fun _ _ => .pure trivial
  · refine gives_unsigned.bind fun length _ => ?_
    exact .ite (fun _ => .pure trivial) fun _ => (gives_bytes _).bind fun _ _ => .pure trivial
  iterate 2 exact gives_unsigned.bind fun _ _ => (gives_bytes _).bind fun _ _ => .pure trivial
  iterate 4 exact gives_unsigned.bind fun _ _ => .pure trivial
  iterate 2
    exact gives_unsigned32.bind fun _ _ => gives_byte.bind fun _ _ =>
      (gives_bytes _).bind fun _ _ => .pure trivial
  iterate 2 exact gives_unsigned32.bind fun _ _ => gives_unsigned32.bind fun _ _ => .pure trivial
  iterate 2 exact gives_byte.bind fun _ _ => gives_unsigned32.bind fun _ _ => .pure trivial
  iterate 4 exact gives_unsigned32.bind fun _ _ => .pure trivial
  exact .pure trivial

theorem gives_readBody (opcode : UInt8) : Gives (readBody opcode) Translated := by
  unfold readBody
  refine .ite (fun _ => .pure trivial) fun _ => .ite (fun _ => .pure trivial) fun _ =>
    .ite (fun _ => gives_signed32.bind fun _ _ => .pure trivial) fun _ => ?_
  split
  · exact .pure (plainWord?_translated ‹_›)
  · exact (gives_readConstant ‹_›).bind fun _ _ => .pure trivial
  · exact gives_readOperands opcode

end Operation

/-! ## What becomes of it -/

/-- What compiles to plain words only, conditionals of branches aside. -/
def Compiled.Plain : Compiled → Prop
  | .words made => ∀ word ∈ made, word.Plain
  | .branch test _ => test.Plain
  | .refused _ => True

/-- What compiles to translations only, also in front of a refused operation. -/
def Compiled.Translated : Compiled → Prop
  | .words made => ∀ word ∈ made, word.Translated
  | .branch test _ => test.Translated
  | .refused leftover => ∀ word ∈ leftover, word.Translated

theorem Compiled.Translated.plain {compiled : Compiled} (h : compiled.Translated) : compiled.Plain := by
  cases compiled with
  | words made => exact fun word hword => (h word hword).plain
  | branch test displacement => exact Word.Translated.plain h
  | refused leftover => trivial

theorem forall_mem_pair {P : Word → Prop} {a b : Word} (ha : P a) (hb : P b) : ∀ word ∈ [a, b], P word := by
  simp [ha, hb]

theorem convertWord?_eq (info : DebugInfo) (unit type : UInt32) :
    convertWord? info unit type =
      if 2 ^ 32 ≤ unit.toNat + type.toNat then none
      else (Direct.baseType? info (unit + type)).map fun (size, signed) =>
        .convert (unit + type) size signed := by
  unfold convertWord? Direct.baseType?
  by_cases hfits : unit.toNat + type.toNat < 2 ^ 32
  · rw [if_neg (by omega)]
    simp only [guard, hfits, if_true]
    cases info.constant? (unit + type) .byteSize with
    | error => rfl
    | ok size =>
      cases size with
      | none => rfl
      | some size =>
        have hsize : (size ≠ 0 ∧ size ≤ 4) ↔ ¬ (size = 0 ∨ 4 < size) := by
          rw [not_or, UInt64.not_lt]
        by_cases hfit : size ≠ 0 ∧ size ≤ 4
        · have hnot := hsize.mp hfit
          simp only [Except.toOption, Option.pure_def, Option.bind_eq_bind, Option.join_some,
            Option.bind_some, if_pos hfit, if_neg hnot]
          cases info.constant? (unit + type) .encoding with
          | error => rfl
          | ok encoding => cases encoding <;> rfl
        · have hnot : size = 0 ∨ 4 < size := Decidable.byContradiction fun h => hfit (hsize.mpr h)
          simp only [if_pos hnot, Except.toOption]
          exact congrArg (Option.bind · _) (if_neg hfit)
  · rw [if_pos (by omega)]
    simp only [guard, hfits, if_false]
    rfl

theorem convertWord?_translated {info : DebugInfo} {unit type : UInt32} {word : Word}
    (h : convertWord? info unit type = some word) : word.Translated := by
  rw [convertWord?_eq] at h
  split at h
  · cases h
  · obtain ⟨_, _, rfl⟩ := Option.map_eq_some_iff.mp h
    trivial

theorem thenConvert_translated (info : DebugInfo) (unit type : UInt32) {front : List Word}
    (h : ∀ word ∈ front, word.Translated) : (thenConvert info unit type front).Translated := by
  unfold thenConvert
  split
  · rename_i last hlast
    intro word hword
    rw [List.mem_append, List.mem_singleton] at hword
    rcases hword with hword | rfl
    · exact h word hword
    · exact convertWord?_translated hlast
  · exact h

theorem compileOperation_translated {info : DebugInfo} {unit : UInt32} {operation : Operation}
    {compiled : Compiled} (h : operation.Translated)
    (hcompiled : compileOperation info unit operation = .ok compiled) : compiled.Translated := by
  cases operation with
  | addressIndex index =>
    simp only [compileOperation] at hcompiled
    split at hcompiled
    · cases hcompiled
    · rename_i summary _
      cases haddress : info.sections.addressAt summary.bases index with
      | error => rw [haddress] at hcompiled; cases hcompiled
      | ok address =>
        rw [haddress] at hcompiled
        cases hcompiled
        exact List.forall_mem_singleton.mpr trivial
  | word word =>
    cases hcompiled
    exact List.forall_mem_singleton.mpr h
  | plusConstant value =>
    cases hcompiled
    exact forall_mem_pair trivial trivial
  | branch always displacement =>
    cases hcompiled
    cases always <;> trivial
  | nop =>
    cases hcompiled
    exact List.forall_mem_nil _
  | bitPiece size offset =>
    cases hcompiled
    split
    · exact List.forall_mem_singleton.mpr trivial
    · exact List.forall_mem_nil _
  | implicit bytes =>
    cases hcompiled
    exact List.forall_mem_singleton.mpr trivial
  | typedConstant type bytes =>
    cases hcompiled
    split
    · exact List.forall_mem_nil _
    · exact thenConvert_translated info unit type (List.forall_mem_singleton.mpr trivial)
  | typedRegister register type =>
    cases hcompiled
    exact thenConvert_translated info unit type (List.forall_mem_singleton.mpr trivial)
  | typedDeref size type =>
    cases hcompiled
    split
    · exact List.forall_mem_nil _
    · exact thenConvert_translated info unit type (List.forall_mem_singleton.mpr trivial)
  | convert type =>
    cases hcompiled
    split
    · exact List.forall_mem_nil _
    · exact thenConvert_translated info unit type (List.forall_mem_nil _)
  | other =>
    cases hcompiled
    exact List.forall_mem_nil _

/-! ## What it does -/

/-- What the words of an operation do. -/
def Compiled.action? (host : Host σ) : Compiled → Option (Direct.Action σ)
  | .words made => some (.effect (Run.program host made))
  | .branch test displacement =>
    some (.branch (do step host test; return (← pop .ifNonzero) = 0) displacement)
  | .refused _ => none

/-- What an operation does by way of its words. -/
def compiledAction? (info : DebugInfo) (unit : UInt32) (host : Host σ) (operation : Operation) :
    Except Fault (Option (Direct.Action σ)) :=
  (compileOperation info unit operation).map (Compiled.action? host)

namespace Direct

open Read

variable (info : DebugInfo) (unit : UInt32) (host : Host σ)

theorem compiled_word (word : Word) (h : word.Plain) :
    (liftExcept (compiledAction? info unit host (.word word)) : Read _) =
      pure (some (.effect (step host word))) := by
  rw [← words_singleton_plain host word h]
  rfl

@[simp]
theorem compiled_plusConstant (value : UInt32) :
    compiledAction? info unit host (.plusConstant value) =
      .ok (some (.effect (unary (.binary .plus) fun cell => cell + value))) := by
  have hwords : words host none [.literal value, .binary .plus] =
      unary (.binary .plus) fun cell => cell + value := by
    rw [words_cons_plain host (.literal value) trivial,
      words_singleton_plain host (.binary .plus) trivial]
    rfl
  rw [← hwords]
  rfl

@[simp]
theorem compiled_branch (always : Bool) (displacement : Int16) :
    compiledAction? info unit host (.branch always displacement) = .ok (some (.branch
      (if always then pure true else do return (← pop .zeroEquals) ≠ 0) displacement)) := by
  cases always with
  | true => rfl
  | false =>
    -- both tests leave zero exactly when the branch is taken
    have htest : (do step host .zeroEquals; return (← pop .ifNonzero) = 0 : Run σ Bool) =
        do return (← pop .zeroEquals) ≠ 0 := by
      simp only [step, bind_assoc, push_bind_pop]
      refine bind_congr fun cell => ?_
      by_cases hcell : cell = 0 <;> simp [cellOfBool, hcell]
    simp only [compiledAction?, compileOperation, Except.map, Compiled.action?, htest,
      Bool.false_eq_true, if_false]

@[simp]
theorem compiled_bitPiece (size : UInt32) (offset : UInt64) :
    compiledAction? info unit host (.bitPiece size offset) =
      .ok (if size % 8 = 0 ∧ offset = 0 then
        some (.effect (modifyMachine fun m => m.closePiece (size / 8))) else none) := by
  simp only [compiledAction?, compileOperation, Except.map]
  split <;> rfl

@[simp]
theorem compiled_implicit (bytes : List UInt8) :
    compiledAction? info unit host (.implicit bytes) = .ok (some (.effect do
      push (wordOfBytes bytes)
      modifyMachine fun m => { m with kind := .value })) := rfl

@[simp]
theorem compiled_addressIndex (index : UInt64) :
    (liftExcept (compiledAction? info unit host (.addressIndex index)) : Read _) =
      match info.unitWithHeader unit with
      | none => throw (.notAnEntry unit)
      | some summary => do return literal (← liftExcept (info.sections.addressAt summary.bases index)) := by
  simp only [compiledAction?, compileOperation]
  cases info.unitWithHeader unit with
  | none => rfl
  | some summary =>
    simp only
    cases info.sections.addressAt summary.bases index <;> rfl

theorem action?_thenConvert (type : UInt32) (front : List Word) (h : ∀ word ∈ front, word.Plain) :
    (Expression.thenConvert info unit type front).action? host =
      thenConvert info unit type (Run.program host front) := by
  rw [Expression.thenConvert, thenConvert, convertWord?_eq]
  by_cases hfits : 2 ^ 32 ≤ unit.toNat + type.toNat
  · rw [if_pos hfits, if_pos hfits]
    rfl
  · rw [if_neg hfits, if_neg hfits]
    cases baseType? info (unit + type) with
    | none => rfl
    | some found =>
      simp only [Option.map_some, Compiled.action?, Run.program, words_append_plain host _ _ h]
      rw [words_singleton_plain host (.convert _ _ _) trivial]
      rfl

@[simp]
theorem compiled_typedConstant (type : UInt32) (bytes : List UInt8) :
    compiledAction? info unit host (.typedConstant type bytes) =
      .ok (if 4 < bytes.length then none
        else thenConvert info unit type (push (wordOfBytes bytes))) := by
  simp only [compiledAction?, compileOperation, Except.map]
  split
  · rfl
  · rw [action?_thenConvert info unit host type [.literal _] (List.forall_mem_singleton.mpr trivial)]
    rfl

@[simp]
theorem compiled_typedRegister (register type : UInt32) :
    compiledAction? info unit host (.typedRegister register type) =
      .ok (thenConvert info unit type (pushRegister host register 0)) := by
  simp only [compiledAction?, compileOperation, Except.map]
  rw [action?_thenConvert info unit host type [.registerValue _ _]
    (List.forall_mem_singleton.mpr trivial), Run.program,
    words_singleton_plain host (.registerValue register 0) trivial]
  rfl

@[simp]
theorem compiled_typedDeref (size : UInt8) (type : UInt32) :
    compiledAction? info unit host (.typedDeref size type) =
      .ok (if size = 0 ∨ 4 < size then none
        else thenConvert info unit type (deref host (.derefSize size) size)) := by
  simp only [compiledAction?, compileOperation, Except.map]
  split
  · rfl
  · rw [action?_thenConvert info unit host type [.derefSize _] (List.forall_mem_singleton.mpr trivial),
      Run.program, words_singleton_plain host (.derefSize size) trivial]
    rfl

@[simp]
theorem compiled_convert (type : UInt32) :
    compiledAction? info unit host (.convert type) =
      .ok (if type = 0 then some (.effect (pure ())) else thenConvert info unit type (pure ())) := by
  simp only [compiledAction?, compileOperation, Except.map]
  split
  · rfl
  · rw [action?_thenConvert info unit host type [] (List.forall_mem_nil _)]
    rfl

theorem divide_eq (op : BinaryOp) (obstacle : Obstacle) (f : UInt32 → UInt32 → UInt32)
    (h : ∀ second top, op.apply second top = if top = 0 then .error obstacle else .ok (f second top)) :
    divide (.binary op) obstacle f = step host (.binary op) := by
  simp only [divide, step, h]
  refine bind_congr fun top => bind_congr fun second => ?_
  split <;> rfl

theorem plain?_eq (opcode : UInt8) : plain? host opcode = (Operation.plainWord? opcode).map (step host) := by
  unfold plain?
  split
  all_goals first
    | rfl
    | exact congrArg some (divide_eq host .div _ _ fun _ _ => rfl)
    | exact congrArg some (divide_eq host .mod _ _ fun _ _ => rfl)
    | simp [Operation.plainWord?, *]

theorem readLiteral?_eq (opcode : UInt8) :
    (readLiteral? opcode : Option (Read (Option (Action σ)))) =
      (Operation.readConstant? opcode).map fun read => do return literal (← read) := by
  unfold readLiteral? Operation.readConstant?
  split <;> try simp only [Option.map_some, bind_assoc, pure_bind]
  simp [*]

theorem readOperands_eq (opcode : UInt8) :
    readOperands info unit host opcode = (do
      liftExcept (compiledAction? info unit host (← Operation.readOperands opcode))) := by
  unfold readOperands Operation.readOperands Operation.readImplicit
  split <;> simp only [bind_assoc, pure_bind, compiled_plusConstant, compiled_branch,
    compiled_bitPiece, compiled_addressIndex, compiled_typedConstant,
    compiled_typedRegister, compiled_typedDeref, compiled_convert]
  all_goals try rfl
  · exact bind_congr fun depth => (compiled_word info unit host (.pick depth) trivial).symm
  · exact bind_congr fun offset => (compiled_word info unit host (.frameBase offset) trivial).symm
  · refine bind_congr fun register => bind_congr fun offset => ?_
    exact (compiled_word info unit host (.registerValue register offset) trivial).symm
  · refine bind_congr fun size => ?_
    split
    · rfl
    · exact (compiled_word info unit host (.derefSize size) trivial).symm
  · refine bind_congr fun length => ?_
    split
    · rfl
    · simp only [bind_assoc, pure_bind, compiled_implicit]
      rfl
  iterate 2
    exact bind_congr fun length => bind_congr fun block =>
      (compiled_word info unit host (.entryValue block) trivial).symm

theorem readAction_eq (opcode : UInt8) :
    readAction info unit host opcode = (do
      liftExcept (compiledAction? info unit host (← Operation.readBody opcode))) := by
  unfold readAction Operation.readBody
  split
  · rfl
  split
  · rfl
  split
  · simp only [bind_assoc, pure_bind]
    refine bind_congr fun offset => ?_
    exact (compiled_word info unit host (.registerValue _ offset) trivial).symm
  rw [plain?_eq, readLiteral?_eq]
  cases hplain : Operation.plainWord? opcode with
  | some word =>
    simp only [Option.map_some, pure_bind]
    exact (compiled_word info unit host word (Operation.plainWord?_translated hplain).plain).symm
  | none =>
    cases Operation.readConstant? opcode with
    | some read =>
      simp only [Option.map_none, Option.map_some, bind_assoc, pure_bind]
      exact bind_congr fun value => (compiled_word info unit host (.literal value) trivial).symm
    | none => exact readOperands_eq info unit host opcode

/-- A decoded operation is the one that is compiled. -/
theorem actionAt_eq (expression : List UInt8) (position : Nat) :
    actionAt info unit host expression position =
      match Operation.read (.place region expression.toArray position) with
      | .error fault _ => .error fault
      | .ok (opcode, operation) next =>
        match compiledAction? info unit host operation with
        | .error fault => .error fault
        | .ok none => .error (.unsupportedOpcode opcode position)
        | .ok (some action) => .ok (action, next.position) := by
  unfold actionAt Operation.read
  simp only [readAction_eq, run_bind]
  cases byte (.place region expression.toArray position) with
  | error fault next => rfl
  | ok opcode next =>
    simp only
    cases Operation.readBody opcode next with
    | error fault last => rfl
    | ok operation last =>
      simp only [pure, EStateM.pure]
      cases compiledAction? info unit host operation with
      | error fault => rfl
      | ok action => cases action <;> rfl

end Direct

end Expression

end FirmwareDebug
