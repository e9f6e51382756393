import FirmwareDebug.Proofs.LineTable.OwnUnit
import FirmwareDebug.Proofs.Moves

/-!
# Line programs always go on

A line program is carried out in passes: each reads one instruction and carries it out. An extended
instruction says itself where the next one starts. That may lie in front of bytes that were read for its
operands, and it may lie behind the end of the program, but it always lies behind the instruction's own
start. So there are no more passes than the program has bytes.
-/

namespace FirmwareDebug

open Read

namespace LineTable

/-- What a pass starts from: the place of the next instruction, and the registers there. -/
structure State where
  cursor : Cursor
  row : Row

/-- One pass, with the row that it adds if it adds one. -/
def Pass (header : Header) (state : State) (added : Option Row) (next : State) : Prop :=
  state.cursor.atEnd = false ∧ ∃ instruction, Instruction.read header state.cursor = .ok instruction next.cursor ∧
    step header state.row instruction = (next.row, added)

/-- Passes in a row, with what each of them adds. -/
inductive Passes (header : Header) : State → List (Option Row) → State → Prop
  | none (state : State) : Passes header state [] state
  | next {state middle last : State} {added : Option Row} {rest : List (Option Row)}
      (pass : Pass header state added middle) (passes : Passes header middle rest last) :
      Passes header state (added :: rest) last

/-- There is no further pass: nothing of the program is left, or its next instruction cannot be read. -/
def Ends (header : Header) (state : State) : Option Fault → Prop
  | none => state.cursor.atEnd = true
  | some fault => state.cursor.atEnd = false ∧ ∃ place, Instruction.read header state.cursor = .error fault place

/-- Where the program of a header may be read. -/
def Header.program (header : Header) (section' : Bytes) : Except Fault Cursor :=
  (within (header.stop - header.start)).eval (.place region section' header.start)

/-- Whenever the read succeeds it ends behind its start, be that inside the limit or not. -/
def Advances {α : Type} (read : Read α) : Prop :=
  ∀ c a next, read c = .ok a next → next.limit = c.limit ∧ c.position < next.position

variable {α : Type} {header : Header} {state last : State} {added : List (Option Row)}

/-! ## Instructions -/

theorem advances_of_moves {read : Read α} (h : Moves read) : Advances read := by
  intro c a next hread
  obtain ⟨hahead, htaken⟩ := h c a next hread
  have hlength := List.length_pos_of_ne_nil htaken
  rw [hahead.length_upTo] at hlength
  exact ⟨hahead.limit_eq, by omega⟩

theorem Advances.behind_byte {f : UInt8 → Read α} (hf : ∀ b, Gives (f b) (fun _ => True) ∨ Advances (f b)) :
    Advances (byte >>= f) := by
  intro c a next hread
  obtain ⟨b, middle, hbyte, hrest⟩ := ran_of_bind hread
  obtain ⟨hlimit, hmiddle⟩ := advances_of_moves moves_byte c b middle hbyte
  obtain hgives | hadvances := hf b
  · obtain ⟨hahead, -⟩ := hgives middle a next hrest
    exact ⟨hahead.limit_eq.trans hlimit, Nat.lt_of_lt_of_le hmiddle hahead.position_le⟩
  · obtain ⟨hsame, hnext⟩ := hadvances middle a next hrest
    exact ⟨hsame.trans hlimit, Nat.lt_trans hmiddle hnext⟩

namespace Instruction

theorem gives_readExtendedBody (length : Nat) : Gives (readExtendedBody length) fun _ => True := by
  unfold readExtendedBody
  refine gives_byte.bind fun opcode _ => ?_
  split
  · exact .pure trivial
  · have haddress := gives_map (moves_sized (UInt8.ofNat (length - 1))).gives_true fun address =>
      Instruction.setAddress address.toUInt32
    exact .ite (fun _ => (Gives.malformed (P := fun _ => True) _).bind fun _ _ => haddress) fun _ => haddress
  · exact (gives_discard moves_text.gives_true).bind fun _ _ => .pure trivial
  · exact gives_map gives_unsigned32 _
  · exact .pure trivial

theorem next_of_readExtended {c next : Cursor} {instruction : Instruction}
    (h : readExtended c = .ok instruction next) :
    ∃ length behind, unsigned c = .ok length behind ∧
      next = { behind with position := behind.position + length.toNat } := by
  simp only [readExtended, run_bind_eq_ok_iff] at h
  obtain ⟨length, behind, hlength, h⟩ := h
  refine ⟨length, behind, hlength, ?_⟩
  split at h
  case isTrue hzero =>
    cases h
    rw [hzero]
    rfl
  case isFalse =>
    simp only [run_bind_eq_ok_iff, run_position_eq_ok_iff, run_check_eq_ok_iff, run_seek_eq_ok_iff,
      run_pure_eq_ok_iff] at h
    obtain ⟨_, _, ⟨rfl, rfl⟩, -, read, after, hbody, -, _, rfl, -, rfl⟩ := h
    obtain ⟨⟨count, rfl, -⟩, -⟩ := gives_readExtendedBody length.toNat _ read after hbody
    rfl

theorem advances_readExtended : Advances readExtended := by
  intro c instruction next h
  obtain ⟨length, behind, hlength, rfl⟩ := next_of_readExtended h
  obtain ⟨hlimit, hbehind⟩ := advances_of_moves moves_unsigned c length behind hlength
  exact ⟨hlimit, Nat.lt_add_right _ hbehind⟩

theorem gives_readStandard {opcode : UInt8} (hopcode : opcode ≠ 0) :
    Gives (readStandard header opcode) fun _ => True := by
  unfold readStandard
  split
  · contradiction
  · exact .pure trivial
  · exact gives_map gives_unsigned32 _
  · exact gives_map gives_signed32 _
  · exact gives_map gives_unsigned32 _
  · exact gives_map gives_unsigned32 _
  · exact .pure trivial
  · exact .pure trivial
  · exact .pure trivial
  · exact gives_map gives_half _
  · exact .pure trivial
  · exact .pure trivial
  · exact gives_map gives_unsigned32 _
  · exact (gives_discard (takes_times moves_unsigned _).gives_true).bind fun _ _ => .pure trivial

theorem advances_read (header : Header) : Advances (read header) := by
  refine .behind_byte fun opcode => ?_
  split
  · exact .inl (.pure trivial)
  · by_cases hopcode : opcode = 0
    · exact .inr (hopcode ▸ advances_readExtended)
    · exact .inl (gives_readStandard hopcode)

end Instruction

/-! ## Passes -/

theorem Pass.advances {next : State} {row : Option Row} (h : Pass header state row next) :
    next.cursor.limit = state.cursor.limit ∧ state.cursor.position < next.cursor.position := by
  obtain ⟨-, instruction, hread, -⟩ := h
  exact Instruction.advances_read header _ _ _ hread

theorem Passes.advances (h : Passes header state added last) :
    last.cursor.limit = state.cursor.limit ∧ state.cursor.position + added.length ≤ last.cursor.position := by
  induction h with
  | none => exact ⟨rfl, Nat.le_refl _⟩
  | next pass _ ih =>
    obtain ⟨hlimit, hnext⟩ := pass.advances
    refine ⟨ih.1.trans hlimit, ?_⟩
    rw [List.length_cons]
    omega

theorem lt_limit_of_atEnd {c : Cursor} (h : c.atEnd = false) : c.position < c.limit :=
  Nat.lt_of_not_le (of_decide_eq_false h)

theorem Passes.length_le (h : Passes header state added last) : added.length ≤ state.cursor.left := by
  -- the last pass may end behind the limit, but it starts in front of it
  unfold Cursor.left
  induction h with
  | none => exact Nat.zero_le _
  | next pass _ ih =>
    have hmore := lt_limit_of_atEnd pass.1
    obtain ⟨hlimit, hnext⟩ := pass.advances
    rw [List.length_cons]
    omega

theorem Passes.length_lt {fault : Fault} (h : Passes header state added last) (hends : Ends header last (some fault)) :
    added.length < state.cursor.left := by
  have hmore := lt_limit_of_atEnd hends.1
  obtain ⟨hlimit, hlast⟩ := h.advances
  unfold Cursor.left
  omega

/-! ## Programs -/

theorem rowsFrom_cons {row after : Row} {instruction : Instruction} {new : Option Row} (rest : List Instruction)
    (hstep : step header row instruction = (after, new)) :
    rowsFrom header row (instruction :: rest) = new.toList ++ rowsFrom header after rest := by
  rw [rowsFrom, hstep]
  cases new <;> rfl

variable (header) in
theorem passes_of_collect {budget : Nat} {c : Cursor} (row : Row) (hbudget : c.left ≤ budget) :
    ∃ added last, Passes header ⟨c, row⟩ added last ∧
      Ends header last (Decoded.collect (Instruction.read header) budget c).fault ∧
      rowsFrom header row (Decoded.collect (Instruction.read header) budget c).items = added.reduceOption := by
  unfold Cursor.left at hbudget
  induction budget generalizing c row with
  | zero =>
    have hend : c.atEnd = true := decide_eq_true (by omega)
    exact ⟨[], ⟨c, row⟩, .none _, hend, rfl⟩
  | succ budget ih =>
    rw [Decoded.collect]
    cases hend : c.atEnd with
    | true => exact ⟨[], ⟨c, row⟩, .none _, hend, rfl⟩
    | false =>
      rw [if_neg Bool.false_ne_true]
      cases hread : Instruction.read header c with
      | error fault place => exact ⟨[], ⟨c, row⟩, .none _, ⟨hend, place, hread⟩, rfl⟩
      | ok instruction next =>
        rcases hstep : step header row instruction with ⟨after, new⟩
        have hpass : Pass header ⟨c, row⟩ new ⟨next, after⟩ := ⟨hend, instruction, hread, hstep⟩
        obtain ⟨hlimit, hnext⟩ := hpass.advances
        obtain ⟨added, last, hpasses, hends, hrows⟩ := ih after (c := next) (by dsimp only at hlimit hnext; omega)
        refine ⟨new :: added, last, .next hpass hpasses, hends, ?_⟩
        refine (rowsFrom_cons _ hstep).trans ?_
        rw [hrows]
        cases new <;> rfl

theorem left_of_program {section' : Bytes} {program : Cursor} (h : header.program section' = .ok program) :
    program.left = header.stop - header.start := by
  obtain ⟨_, hwithin⟩ := eval_eq_ok_iff.mp h
  obtain ⟨-, htruncated⟩ := run_within_eq_ok_iff.mp hwithin
  obtain ⟨-, -, hposition, hlimit, -⟩ := Cursor.eq_of_truncated? htruncated
  rw [Cursor.left, hposition, hlimit]
  exact Nat.add_sub_cancel_left _ _

/--
Each pass ends behind its start. So from the start of a program no more passes follow than the program has bytes, and
the one that fails, if one does, is counted with them; the table has the rows that the passes add, at most one each.
-/
theorem decodedRows_of_passes (header : Header) (section' : Bytes) :
    (∀ state new next, Pass header state new next → state.cursor.position < next.cursor.position) ∧
      (∀ directory fault, header.program section' = .error fault →
        decodedRows ⟨header, section', directory⟩ = .error fault) ∧
      ∀ directory program, header.program section' = .ok program →
        (∀ added last, Passes header ⟨program, .initial header⟩ added last →
          added.length ≤ header.stop - header.start) ∧
        ∃ added last fault, Passes header ⟨program, .initial header⟩ added last ∧ Ends header last fault ∧
          (fault.isSome → added.length < header.stop - header.start) ∧
          decodedRows ⟨header, section', directory⟩ = .ok ⟨added.reduceOption, fault⟩ := by
  have hdecoded (directory : Option String) : decodedRows ⟨header, section', directory⟩ = (do
      let program ← header.program section'
      let instructions := Decoded.ofCursor (Instruction.read header) program
      return ⟨rowsFrom header (.initial header) instructions.items, instructions.fault⟩) := by
    unfold decodedRows Header.instructions Header.program
    rw [bind_assoc]
    rfl
  refine ⟨fun _ _ _ h => h.advances.2, fun directory fault h => ?_, fun directory program h => ?_⟩
  · rw [hdecoded, h]
    rfl
  rw [← left_of_program h]
  refine ⟨fun added last hpasses => hpasses.length_le, ?_⟩
  obtain ⟨added, last, hpasses, hends, hrows⟩ := passes_of_collect header (.initial header) (Nat.le_refl program.left)
  refine ⟨added, last, _, hpasses, hends, ?_, ?_⟩
  · intro hfault
    obtain ⟨fault, hfault⟩ := Option.isSome_iff_exists.mp hfault
    exact hpasses.length_lt (hfault ▸ hends)
  · rw [hdecoded, h, ← hrows]
    rfl

/-- The first instruction reads a name, and goes back in front of it; the last one goes on far behind the end. -/
def seekingProgram : Bytes := #[0, 1, 3, 0x16, 0, 0x7f, 1]

def seekingRow : Row := { isStatement := true, address := 1, line := 3 }

theorem decodedRows_seekingProgram :
    (sampleHeader 0 0 7).program seekingProgram = .ok (.place region seekingProgram 0) ∧
      ∃ added last,
        Passes (sampleHeader 0 0 7) ⟨.place region seekingProgram 0, .initial (sampleHeader 0 0 7)⟩ added last ∧
        added.length ≤ 7 ∧ added.reduceOption = [seekingRow, { seekingRow with endSequence := true }] := by
  have hprogram : (sampleHeader 0 0 7).program seekingProgram = .ok (.place region seekingProgram 0) := rfl
  have hdecoded : decodedRows ⟨sampleHeader 0 0 7, seekingProgram, none⟩ =
      .ok ⟨[seekingRow, { seekingRow with endSequence := true }], none⟩ := rfl
  obtain ⟨-, -, hpasses⟩ := decodedRows_of_passes (sampleHeader 0 0 7) seekingProgram
  obtain ⟨hbound, added, last, fault, hpasses, -, -, hrows⟩ := hpasses none _ hprogram
  obtain ⟨hitems, -⟩ := Decoded.mk.inj (Except.ok.inj (hdecoded.symm.trans hrows))
  exact ⟨hprogram, added, last, hpasses, hbound added last hpasses, hitems.symm⟩

end LineTable

end FirmwareDebug
