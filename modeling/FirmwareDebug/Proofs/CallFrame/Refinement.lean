import FirmwareDebug.Proofs.CallFrame.UnwindTable
import FirmwareDebug.Proofs.Read
import Mathlib.Data.List.Forall2

/-!
# Call frame programs refine the unwind table

The program of a description leads the machine to the row that the unwind table has for an address.
-/

namespace FirmwareDebug.CallFrame

open Read

/-! ## One instruction -/

/-- A rule of the table with its offset cut to a word. -/
def Rule.cut : Rule → RegisterRule
  | .undefined => .undefined
  | .sameValue => .sameValue
  | .saved offset => .offset (Int32.ofInt offset)
  | .value offset => .valueOffset (Int32.ofInt offset)
  | .copied source => .register source

/-- The word that gives a register a rule. -/
def Rule.word (register : UInt32) : Rule → FrameWord
  | .undefined => .undefined register
  | .sameValue => .sameValue register
  | .saved offset => .offset register (Int32.ofInt offset)
  | .value offset => .valueOffset register (Int32.ofInt offset)
  | .copied source => .copied register source

/-- The word for an instruction, if it needs one. -/
def Instruction.word? : Instruction → Option FrameWord
  | .nop => none
  | .advance delta => some (.advance (UInt32.ofNat delta))
  | .moveTo address => some (.setLocation (UInt32.ofNat address))
  | .cfa register offset => some (.defCfa register (Int32.ofInt offset))
  | .cfaRegister register => some (.defCfaRegister register)
  | .cfaOffset offset => some (.defCfaOffset (Int32.ofInt offset))
  | .rule register given => some (given.word register)
  | .restore register => some (.restore register)
  | .remember => some .rememberState
  | .restoreState => some .restoreState
  | .commonEnd => some .initialEnd

theorem ofInt_unsigned (value : UInt64) : Int32.ofInt value.toNat = value.toUInt32.toInt32 := by
  apply Int32.toBitVec_inj.mp
  simp only [Int32.toBitVec_ofInt, UInt32.toBitVec_toInt32, UInt64.toBitVec_toUInt32]
  apply BitVec.eq_of_toNat_eq
  simp

theorem ofInt_mul (a : Int) (factor : Int32) :
    Int32.ofInt (a * factor.toInt) = Int32.ofInt a * factor := by
  rw [Int32.ofInt_mul, Int32.ofInt_toInt]

theorem ofNat_mul (a factor : UInt32) : UInt32.ofNat (a.toNat * factor.toNat) = a * factor := by
  rw [UInt32.ofNat_mul, UInt32.ofNat_toNat, UInt32.ofNat_toNat]

variable (common : CommonEntry)

theorem readExtended_eq (opcode : UInt8) :
    readExtended common opcode =
      (do return (← readLong common.codeAlignment.toNat common.dataAlignment.toInt opcode).word?) := by
  unfold readExtended readLong
  split <;> simp only [readRule, readUnsigned, readSigned, unsignedOperand, signedOperand, bind_assoc,
    pure_bind, Instruction.word?, Rule.word, ofInt_mul, ofInt_unsigned, Int32.ofInt_int64ToInt,
    CommonEntry.advance, CommonEntry.dataOffset, UInt32.ofNat_toNat, UInt32.ofNat_mul,
    UInt32.ofNat_uInt8ToNat, UInt32.ofNat_uInt16ToNat, Int32.ofInt_neg]
  all_goals try rfl

theorem readWord_eq :
    readWord common =
      (do return (← readInstruction common.codeAlignment.toNat common.dataAlignment.toInt).word?) := by
  unfold readWord readInstruction
  simp only [bind_assoc]
  refine bind_congr fun opcode => ?_
  split
  · rename_i h
    rw [if_pos h]
    simp only [pure_bind, Instruction.word?, UInt32.ofNat_mul, UInt32.ofNat_toNat]
    rfl
  · rename_i h
    rw [if_neg (by rw [h]; decide), if_pos h]
    simp only [readUnsigned, unsignedOperand, bind_assoc, pure_bind, Instruction.word?, Rule.word,
      ofInt_mul, ofInt_unsigned, CommonEntry.dataOffset]
  · rename_i h
    rw [if_neg (by rw [h]; decide), if_neg (by rw [h]; decide), if_pos h]
    rfl
  · rename_i hadvance hsaved hrestore
    rw [if_neg hadvance, if_neg hsaved, if_neg hrestore]
    exact readExtended_eq common opcode

/-! ## All instructions -/

theorem gives_readUnsigned : Gives readUnsigned fun _ => True := gives_map gives_unsigned _

theorem gives_readSigned : Gives readSigned fun _ => True := gives_map gives_signed _

theorem gives_readRule {rule : Read Rule} (h : Gives rule fun _ => True) :
    Gives (readRule rule) fun _ => True :=
  gives_unsigned32.bind fun _ _ => gives_map h _

theorem gives_readLong (code : Nat) (data : Int) (opcode : UInt8) :
    Gives (readLong code data opcode) fun _ => True := by
  unfold readLong
  split
  · exact .pure trivial
  · exact gives_map gives_word _
  · exact gives_map gives_byte _
  · exact gives_map gives_half _
  · exact gives_map gives_word _
  · exact gives_readRule (gives_map gives_readUnsigned _)
  · exact gives_map gives_unsigned32 _
  · exact gives_readRule (.pure trivial)
  · exact gives_readRule (.pure trivial)
  · exact gives_readRule (gives_map gives_unsigned32 _)
  · exact .pure trivial
  · exact .pure trivial
  · exact gives_unsigned32.bind fun _ _ => gives_map gives_readUnsigned _
  · exact gives_map gives_unsigned32 _
  · exact gives_map gives_readUnsigned _
  · exact gives_readRule (gives_map gives_readSigned _)
  · exact gives_unsigned32.bind fun _ _ => gives_map gives_readSigned _
  · exact gives_map gives_readSigned _
  · exact gives_readRule (gives_map gives_readUnsigned _)
  · exact gives_readRule (gives_map gives_readSigned _)
  · exact (gives_discard gives_unsigned).bind fun _ _ => .pure trivial
  · exact gives_readRule (gives_map gives_readUnsigned _)
  · exact .throw _

theorem readInstruction_next {code : Nat} {data : Int} {bytes : List UInt8} {position : Nat}
    {instruction : Instruction} {after : Cursor}
    (h : readInstruction code data (.place region bytes.toArray position) = .ok instruction after) :
    after = .place region bytes.toArray after.position ∧ position < after.position := by
  have hlow : ∀ opcode : UInt8, Gives (do
      let low := (opcode &&& 0x3f).toUInt32
      if opcode &&& 0xc0 = 0x40 then return .advance (low.toNat * code)
      else if opcode &&& 0xc0 = 0x80 then return .rule low (.saved ((← readUnsigned) * data))
      else if opcode &&& 0xc0 = 0xc0 then return .restore low
      else readLong code data opcode) fun _ => True := fun opcode =>
    .ite (fun _ => .pure trivial) fun _ => .ite (fun _ => gives_map gives_readUnsigned _) fun _ =>
      .ite (fun _ => .pure trivial) fun _ => gives_readLong code data opcode
  refine ⟨?_, position_lt_of_byte hlow h⟩
  obtain ⟨⟨count, rfl, -⟩, -⟩ := gives_byte.bind (fun opcode _ => hlow opcode) _ _ _ h
  rfl

theorem collect_words {bytes : List UInt8} {position : Nat} {instructions : List Instruction}
    (h : Instructions common.codeAlignment.toNat common.dataAlignment.toInt bytes position instructions)
    {budget : Nat} (hbudget : bytes.length ≤ position + budget) :
    Decoded.collect (readWord common) budget (.place region bytes.toArray position) =
      ⟨instructions.map Instruction.word?, none⟩ := by
  induction h generalizing budget with
  | finished =>
    cases budget with
    | zero => rfl
    | succ budget =>
      unfold Decoded.collect
      rw [if_pos (by simp [Cursor.atEnd, Cursor.place])]
      rfl
  | @next position instruction after rest inside decoded others ih =>
    obtain ⟨hafter, hlt⟩ := readInstruction_next decoded
    cases budget with
    | zero => omega
    | succ budget =>
      have hread : readWord common (.place region bytes.toArray position) = .ok instruction.word? after := by
        rw [readWord_eq, run_bind, decoded]
        rfl
      unfold Decoded.collect
      rw [if_neg (by simpa [Cursor.atEnd, Cursor.place] using inside), hread]
      simp only
      rw [hafter, ih (by omega)]
      rfl

/-- The words of a row of instructions. -/
def frameWords (instructions : List Instruction) : List FrameWord :=
  instructions.filterMap Instruction.word?

theorem words_eq {bytes : List UInt8} {instructions : List Instruction}
    (h : Instructions common.codeAlignment.toNat common.dataAlignment.toInt bytes 0 instructions) :
    words common bytes = .ok (frameWords instructions) := by
  unfold words Decoded.ofCursor
  rw [collect_words common h (by simp [Cursor.left, Cursor.place])]
  simp only [Decoded.all, bind, Except.bind, pure, Except.pure, frameWords, List.filterMap_map]
  rfl

/-! ## One step -/

/-- The machine's row says the same of the core registers as a row of the table. -/
structure RowMatches (returnAddress : UInt32) (row : UnwindRow) (entry : TableRow) : Prop where
  cfa : row.cfa = entry.cfa.map fun (register, offset) => ⟨register, Int32.ofInt offset⟩
  rules : ∀ register < 16, row.rule register = (entry.rules register).cut
  returnAddress : row.returnAddressRegister = returnAddress

/-- The machine is in the last row of the table so far, and has not passed its target. -/
structure StateMatches (returnAddress : UInt32) (state : Unwinding) (table : TableState) : Prop where
  location : table.location = state.location.toNat
  reached : state.location ≤ state.target
  row : RowMatches returnAddress state.row table.row
  initial : Option.Rel (RowMatches returnAddress) state.initial table.common
  remembered : List.Forall₂ (RowMatches returnAddress) state.remembered table.remembered

theorem rule_setRule (row : UnwindRow) (register other : UInt32) (rule : RegisterRule) (h : other < 16) :
    (row.setRule register rule).rule other = if other = register then rule else row.rule other := by
  have hother : other.toNat < 16 := UInt32.lt_iff_toNat_lt.mp h
  unfold UnwindRow.rule UnwindRow.setRule
  rw [Vector.getElem?_setIfInBounds]
  split
  · rename_i heq
    rw [if_pos (UInt32.toNat_inj.mp heq).symm, if_pos (by omega)]
    rfl
  · rename_i hne
    rw [if_neg fun heq => hne (by rw [heq])]

theorem RowMatches.setRule {ra register : UInt32} {row : UnwindRow} {entry : TableRow}
    {rule : RegisterRule} {given : Rule} (h : RowMatches ra row entry)
    (hrule : register < 16 → rule = given.cut) :
    RowMatches ra (row.setRule register rule)
      { entry with rules := fun r => if r = register then given else entry.rules r } where
  cfa := h.cfa
  rules := by
    intro other hother
    rw [rule_setRule row register other rule hother]
    split
    · rename_i heq
      subst heq
      simp only [if_true]
      exact hrule hother
    · rename_i hne
      simp only [if_neg hne]
      exact h.rules other hother
  returnAddress := h.returnAddress

theorem rowMatches_default (ra : UInt32) :
    RowMatches ra { returnAddressRegister := ra } {} where
  cfa := rfl
  rules := by
    intro register hregister
    have : register.toNat < 16 := UInt32.lt_iff_toNat_lt.mp hregister
    simp [UnwindRow.rule, hregister, this, Rule.cut]
  returnAddress := rfl

theorem step_rule (state : Unwinding) (register : UInt32) (rule : Rule) :
    state.step (rule.word register) = .ok (some (state.mapRow (·.setRule register rule.cut))) := by
  cases rule <;> rfl

/-- The state after call frame words, or where they stop. -/
def runFrames (state : Unwinding) : List FrameWord → Except Fault Unwinding
  | [] => .ok state
  | word :: rest =>
    match state.step word with
    | .error fault => .error fault
    | .ok none => .ok state
    | .ok (some next) => runFrames next rest

/-- What one instruction of the table does to the machine: it goes along, or stops in its row. -/
inductive Follows (ra : UInt32) (state : Unwinding) (table next : TableState) (instruction : Instruction) :
    Prop
  | along (after : Unwinding) (target : after.target = state.target) (state_matches : StateMatches ra after next)
      (run : ∀ rest, runFrames state (frameWords (instruction :: rest)) = runFrames after (frameWords rest))
  | stops (passed : state.target.toNat < next.location)
      (finished : next.finished = table.finished ++ [(table.location, table.row)])
      (run : ∀ rest, runFrames state (frameWords (instruction :: rest)) = .ok state)

section

variable {ra : UInt32} {state : Unwinding} {table next : TableState} {instruction : Instruction}

theorem run_step {word : FrameWord} {after : Unwinding} (hword : instruction.word? = some word)
    (hstep : state.step word = .ok (some after)) (rest : List Instruction) :
    runFrames state (frameWords (instruction :: rest)) = runFrames after (frameWords rest) := by
  rw [frameWords, List.filterMap_cons_some hword, runFrames, hstep]
  rfl

theorem run_stop {word : FrameWord} (hword : instruction.word? = some word)
    (hstep : state.step word = .ok none) (rest : List Instruction) :
    runFrames state (frameWords (instruction :: rest)) = .ok state := by
  rw [frameWords, List.filterMap_cons_some hword, runFrames, hstep]

theorem follows_move {word : FrameWord} {location : UInt32} (h : StateMatches ra state table)
    (hword : instruction.word? = some word) (hstep : state.step word = .ok (state.moveTo location)) :
    Follows ra state table (table.startRow location.toNat) instruction := by
  by_cases hpassed : state.target < location
  · refine .stops (UInt32.lt_iff_toNat_lt.mp hpassed) rfl (run_stop hword ?_)
    rw [hstep, Unwinding.moveTo, if_pos hpassed]
  · refine .along { state with location } rfl ?_ (run_step hword ?_)
    · exact ⟨rfl, UInt32.not_lt.mp hpassed, h.row, h.initial, h.remembered⟩
    · rw [hstep, Unwinding.moveTo, if_neg hpassed]

theorem follows_row {word : FrameWord} {f : UnwindRow → UnwindRow} {entry : TableRow}
    (h : StateMatches ra state table) (hword : instruction.word? = some word)
    (hstep : state.step word = .ok (some (state.mapRow f))) (hrow : RowMatches ra (f state.row) entry) :
    Follows ra state table { table with row := entry } instruction :=
  .along (state.mapRow f) rfl ⟨h.location, h.reached, hrow, h.initial, h.remembered⟩ (run_step hword hstep)

theorem StateMatches.follows (h : StateMatches ra state table) (hstep : table.step instruction = some next)
    (hfits : next.location < 2 ^ 32) : Follows ra state table next instruction := by
  cases instruction with
  | nop =>
    cases hstep
    exact .along state rfl h fun rest => rfl
  | advance delta =>
    cases hstep
    have hlocation : (state.location + UInt32.ofNat delta).toNat = table.location + delta := by
      simp only [TableState.startRow, h.location] at hfits
      rw [UInt32.toNat_add, UInt32.toNat_ofNat', h.location]
      omega
    rw [← hlocation]
    exact follows_move h rfl rfl
  | moveTo address =>
    cases hstep
    have hlocation : (UInt32.ofNat address).toNat = address := by
      rw [UInt32.toNat_ofNat']
      exact Nat.mod_eq_of_lt hfits
    have hmove : Follows ra state table (table.startRow (UInt32.ofNat address).toNat) (.moveTo address) :=
      follows_move h rfl rfl
    rwa [hlocation] at hmove
  | cfa register offset =>
    cases hstep
    exact follows_row h rfl rfl ⟨rfl, h.row.rules, h.row.returnAddress⟩
  | cfaRegister register =>
    cases hstep
    refine follows_row h rfl rfl ⟨?_, h.row.rules, h.row.returnAddress⟩
    rw [h.row.cfa]
    cases table.row.cfa <;> rfl
  | cfaOffset offset =>
    cases hstep
    refine follows_row h rfl rfl ⟨?_, h.row.rules, h.row.returnAddress⟩
    rw [h.row.cfa]
    cases table.row.cfa <;> rfl
  | rule register given =>
    cases hstep
    exact follows_row h rfl (step_rule state register given) (h.row.setRule fun _ => rfl)
  | restore register =>
    cases hstep
    refine follows_row h rfl rfl (h.row.setRule fun hregister => ?_)
    have hinitial := h.initial
    revert hinitial
    cases state.initial <;> cases table.common <;> intro hinitial <;> cases hinitial
    · have hdefault : ({} : TableRow).rules register = .sameValue := if_pos hregister
      rw [Option.getD_none, hdefault]
      rfl
    · rename_i hinitial
      exact hinitial.rules register hregister
  | remember =>
    cases hstep
    refine .along { state with remembered := state.row :: state.remembered } rfl ?_ (run_step rfl rfl)
    exact ⟨h.location, h.reached, h.row, h.initial, .cons h.row h.remembered⟩
  | restoreState =>
    have hremembered := h.remembered
    cases htable : table.remembered with
    | nil =>
      simp only [TableState.step, htable] at hstep
      cases hstep
    | cons entry others =>
      simp only [TableState.step, htable] at hstep
      cases hstep
      rw [htable] at hremembered
      cases hstate : state.remembered with
      | nil =>
        rw [hstate] at hremembered
        cases hremembered
      | cons row rows =>
        rw [hstate] at hremembered
        cases hremembered with
        | cons hrow hrows =>
          refine .along { state with row, remembered := rows } rfl ?_ (run_step rfl ?_)
          · exact ⟨h.location, h.reached, hrow, h.initial, hrows⟩
          · simp only [Unwinding.step, hstate]
            rfl
  | commonEnd =>
    cases hstep
    refine .along { state with initial := some state.row } rfl ?_ (run_step rfl rfl)
    exact ⟨h.location, h.reached, h.row, .some h.row, h.remembered⟩

/-! ## Whole runs -/

theorem step_finished (hstep : table.step instruction = some next) :
    (next.finished = table.finished ∧ next.location = table.location) ∨
      next.finished = table.finished ++ [(table.location, table.row)] := by
  cases instruction with
  | advance delta =>
    cases hstep
    exact .inr rfl
  | moveTo address =>
    cases hstep
    exact .inr rfl
  | restoreState =>
    simp only [TableState.step] at hstep
    split at hstep
    · cases hstep
    · cases hstep
      exact .inl ⟨rfl, rfl⟩
  | _ =>
    cases hstep
    exact .inl ⟨rfl, rfl⟩

/-- Rows that are finished stay, and the one that is being made keeps its location. -/
theorem rows_of_run {instructions : List Instruction} {last : TableState}
    (hrun : table.run instructions = some last) :
    ∃ entry rest, last.rows = table.finished ++ (table.location, entry) :: rest := by
  induction instructions generalizing table with
  | nil =>
    cases hrun
    exact ⟨last.row, [], rfl⟩
  | cons instruction others ih =>
    obtain ⟨next, hstep, hnext⟩ := Option.bind_eq_some_iff.mp hrun
    obtain ⟨entry, rest, hrows⟩ := ih hnext
    rcases step_finished hstep with ⟨hfinished, hlocation⟩ | hfinished
    · rw [hfinished, hlocation] at hrows
      exact ⟨entry, rest, hrows⟩
    · rw [hfinished, List.append_assoc] at hrows
      exact ⟨table.row, (next.location, entry) :: rest, hrows⟩

theorem rowAt_append (front : List (Nat × TableRow)) {location address : Nat} (entry : TableRow)
    {rest : List (Nat × TableRow)} (hreached : location ≤ address) (hrest : ∀ row ∈ rest, address < row.1) :
    rowAt (front ++ (location, entry) :: rest) address = some entry := by
  have hfilter : rest.filter (fun row => row.1 ≤ address) = [] := by
    rw [List.filter_eq_nil_iff]
    intro row hrow
    have := hrest row hrow
    simp only [decide_eq_true_eq]
    omega
  unfold rowAt
  rw [List.filter_append, List.filter_cons_of_pos (by simpa using hreached), hfilter,
    List.getLast?_append]
  rfl

theorem runFrames_rowAt {instructions : List Instruction} {last : TableState}
    (h : StateMatches ra state table) (hrun : table.run instructions = some last)
    (hordered : Ordered last.rows) :
    ∃ after entry, runFrames state (frameWords instructions) = .ok after ∧
      rowAt last.rows state.target.toNat = some entry ∧ RowMatches ra after.row entry := by
  induction instructions generalizing state table with
  | nil =>
    cases hrun
    refine ⟨state, last.row, rfl, rowAt_append _ _ ?_ (List.forall_mem_nil _), h.row⟩
    rw [h.location]
    exact UInt32.le_iff_toNat_le.mp h.reached
  | cons instruction others ih =>
    obtain ⟨next, hstep, hnext⟩ := Option.bind_eq_some_iff.mp hrun
    obtain ⟨entry, rest, hrows⟩ := rows_of_run hnext
    have hfits : next.location < 2 ^ 32 := by
      refine hordered.2 (next.location, entry) ?_
      rw [hrows]
      exact List.mem_append_right _ List.mem_cons_self
    cases h.follows hstep hfits with
    | along after target state_matches run =>
      rw [run, ← target]
      exact ih state_matches hnext
    | stops passed finished run =>
      refine ⟨state, table.row, run others, ?_, h.row⟩
      have hreached : table.location ≤ state.target.toNat := by
        rw [h.location]
        exact UInt32.le_iff_toNat_le.mp h.reached
      rw [hrows, finished, List.append_assoc]
      refine rowAt_append table.finished table.row hreached fun row hrow => ?_
      -- All rows from the next one on start behind the target, as locations never decrease.
      have hpairs := hordered.1
      rw [hrows, List.pairwise_append] at hpairs
      rcases List.mem_cons.mp hrow with rfl | hrow
      · exact passed
      · exact Nat.lt_of_lt_of_le passed ((List.pairwise_cons.mp hpairs.2.1).1 row hrow)

end

end FirmwareDebug.CallFrame
