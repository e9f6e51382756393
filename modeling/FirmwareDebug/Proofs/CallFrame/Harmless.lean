import FirmwareDebug.Proofs.CallFrame.Caller

/-!
# What a call frame program can do to the machine

A call frame program works on its own state: it asks nothing of the host, and the rest of the machine stays
as it is. The location never passes the target address. Only a word that goes back to a remembered row can
fail, and it fails where no word before it remembers the row: words that remember a row and words that go
back to one pair up like brackets.
-/

namespace FirmwareDebug

/-- The remembered rows behind a word that the program goes on from. -/
def Unwinding.rememberedBehind (state : Unwinding) : FrameWord → List UnwindRow
  | .rememberState => state.row :: state.remembered
  | .restoreState => state.remembered.tail
  | _ => state.remembered

namespace CallFrame

/-- What a word does: the program goes on, or stops in front of the target address, or fails. -/
inductive WordOutcome (state : Unwinding) (word : FrameWord) : Prop
  | goesOn {next : Unwinding} (step : state.step word = .ok (some next)) (target : next.target = state.target)
      (location : state.location ≤ state.target → next.location ≤ state.target)
      (remembered : next.remembered = state.rememberedBehind word)
  | stops (step : state.step word = .ok none)
  | fails (restores : word = .restoreState) (empty : state.remembered = [])
      (step : state.step word = .error (.stackUnderflow (.operand (.frame .restoreState))))

/-- Words lead from a state to another one, without the program stopping between them. -/
inductive Leads : Unwinding → List FrameWord → Unwinding → Prop
  | done (state : Unwinding) : Leads state [] state
  | cons {state next last : Unwinding} {word : FrameWord} {rest : List FrameWord}
      (step : state.step word = .ok (some next)) (leads : Leads next rest last) : Leads state (word :: rest) last

/-- Every word that remembers a row has its partner that goes back to it, and the other way round. -/
inductive Paired : List FrameWord → Prop
  | nil : Paired []
  | other {word : FrameWord} (remembers : word ≠ .rememberState) (restores : word ≠ .restoreState) : Paired [word]
  | append {front back : List FrameWord} (hfront : Paired front) (hback : Paired back) : Paired (front ++ back)
  | pair {inner : List FrameWord} (hinner : Paired inner) : Paired (.rememberState :: (inner ++ [.restoreState]))

/-- Among the words in front is one that remembers the row for a word behind them. -/
def HasPartner (front : List FrameWord) : Prop :=
  ∃ before inner, front = before ++ .rememberState :: inner ∧ Paired inner

variable {state next last : Unwinding} {word : FrameWord} {words front back : List FrameWord}

/-! ## One word -/

theorem rememberedBehind_eq (remembers : word ≠ .rememberState) (restores : word ≠ .restoreState) :
    state.rememberedBehind word = state.remembered := by
  cases word <;> first | rfl | contradiction

theorem outcome_move {location : UInt32} (hstep : state.step word = .ok (state.moveTo location))
    (hremembered : state.rememberedBehind word = state.remembered) : WordOutcome state word := by
  by_cases hpassed : state.target < location
  · rw [Unwinding.moveTo, if_pos hpassed] at hstep
    exact .stops hstep
  · rw [Unwinding.moveTo, if_neg hpassed] at hstep
    exact .goesOn hstep rfl (fun _ => UInt32.not_lt.mp hpassed) hremembered.symm

variable (state word) in
theorem outcome : WordOutcome state word := by
  cases word with
  | setLocation address => exact outcome_move rfl rfl
  | advance delta => exact outcome_move rfl rfl
  | restoreState =>
    cases hremembered : state.remembered with
    | nil =>
      refine .fails rfl hremembered ?_
      rw [Unwinding.step, hremembered]
      rfl
    | cons row remembered =>
      have hstep : state.step .restoreState = .ok (some { state with row, remembered }) := by
        rw [Unwinding.step, hremembered]
        rfl
      refine .goesOn hstep rfl id ?_
      rw [Unwinding.rememberedBehind, hremembered, List.tail_cons]
  | _ => exact .goesOn rfl rfl id rfl

theorem outcome_of_step (h : state.step word = .ok (some next)) :
    next.target = state.target ∧ (state.location ≤ state.target → next.location ≤ state.target) ∧
      next.remembered = state.rememberedBehind word := by
  cases outcome state word with
  | goesOn step target location remembered =>
    cases step.symm.trans h
    exact ⟨target, location, remembered⟩
  | stops step => cases step.symm.trans h
  | fails _ _ step => cases step.symm.trans h

/-! ## Words in a row -/

theorem leads_append :
    Leads state (front ++ back) last ↔ ∃ middle, Leads state front middle ∧ Leads middle back last := by
  induction front generalizing state with
  | nil =>
    refine ⟨fun h => ⟨state, .done state, h⟩, ?_⟩
    rintro ⟨middle, ⟨⟩, h⟩
    exact h
  | cons word rest ih =>
    constructor
    · rintro (_ | ⟨step, h⟩)
      obtain ⟨middle, hfront, hback⟩ := ih.mp h
      exact ⟨middle, .cons step hfront, hback⟩
    · rintro ⟨middle, _ | ⟨step, hfront⟩, hback⟩
      exact .cons step (ih.mpr ⟨middle, hfront, hback⟩)

theorem leads_singleton : Leads state [word] last ↔ state.step word = .ok (some last) := by
  constructor
  · rintro (_ | ⟨step, ⟨⟩⟩)
    exact step
  · exact fun h => .cons h (.done last)

theorem Leads.location_le (h : Leads state words last) (hstart : state.location ≤ state.target) :
    last.location ≤ state.target := by
  induction h with
  | done => exact hstart
  | cons step _ ih =>
    obtain ⟨target, location, -⟩ := outcome_of_step step
    rw [target] at ih
    exact ih (location hstart)

/-! ## Remembered rows -/

theorem Paired.remembered_eq (h : Paired words) (hleads : Leads state words last) :
    last.remembered = state.remembered := by
  induction h generalizing state last with
  | nil =>
    cases hleads
    rfl
  | @other word remembers restores =>
    obtain ⟨-, -, hremembered⟩ := outcome_of_step (leads_singleton.mp hleads)
    exact hremembered.trans (rememberedBehind_eq remembers restores)
  | append _ _ ihFront ihBack =>
    obtain ⟨middle, hfront, hback⟩ := leads_append.mp hleads
    rw [ihBack hback, ihFront hfront]
  | pair _ ih =>
    obtain _ | ⟨step, hleads⟩ := hleads
    obtain ⟨middle, hinner, hlast⟩ := leads_append.mp hleads
    obtain ⟨-, -, hbefore⟩ := outcome_of_step step
    obtain ⟨-, -, hbehind⟩ := outcome_of_step (leads_singleton.mp hlast)
    rw [hbehind, Unwinding.rememberedBehind, ih hinner, hbefore]
    rfl

theorem exists_remembering {row : UnwindRow} {remembered : List UnwindRow} (hleads : Leads state front last)
    (hstart : state.remembered = []) (hlast : last.remembered = row :: remembered) :
    ∃ before inner middle, front = before ++ .rememberState :: inner ∧ Paired inner ∧
      Leads state before middle ∧ middle.remembered = remembered := by
  -- by the last word; where it goes back to a row, what is in front of the row that it takes is shorter still
  induction hlength : front.length using Nat.strongRecOn generalizing front last row remembered with
  | _ length ih =>
  obtain rfl | ⟨init, word, rfl⟩ := List.eq_nil_or_concat front
  · cases hleads
    rw [hstart] at hlast
    cases hlast
  obtain ⟨previous, hinit, hword⟩ := leads_append.mp (List.concat_eq_append ▸ hleads)
  obtain ⟨-, -, hremembered⟩ := outcome_of_step (leads_singleton.mp hword)
  rw [hlast] at hremembered
  rw [List.length_concat] at hlength
  rw [List.concat_eq_append]
  by_cases hremembers : word = .rememberState
  · subst hremembers
    cases hremembered
    exact ⟨init, [], previous, rfl, .nil, hinit, rfl⟩
  by_cases hrestores : word = .restoreState
  · subst hrestores
    obtain ⟨taken, htaken⟩ : ∃ taken, previous.remembered = taken :: row :: remembered := by
      cases hprevious : previous.remembered with
      | nil => simp [Unwinding.rememberedBehind, hprevious] at hremembered
      | cons taken rest =>
        simp only [Unwinding.rememberedBehind, hprevious, List.tail_cons] at hremembered
        exact ⟨taken, by rw [hremembered]⟩
    obtain ⟨before, inner, middle, rfl, hinner, hbefore, hmiddle⟩ := ih init.length (by omega) hinit htaken rfl
    have hshorter : before.length < length := by
      rw [← hlength, List.length_append]
      omega
    obtain ⟨first, outer, start, rfl, houter, hfirst, hrest⟩ := ih before.length hshorter hbefore hmiddle rfl
    refine ⟨first, outer ++ .rememberState :: (inner ++ [.restoreState]), start, ?_, houter.append hinner.pair,
      hfirst, hrest⟩
    simp only [List.append_assoc, List.cons_append]
  · have hkept : previous.remembered = row :: remembered :=
      (hremembered.trans (rememberedBehind_eq hremembers hrestores)).symm
    obtain ⟨before, inner, middle, rfl, hinner, hbefore, hmiddle⟩ := ih init.length (by omega) hinit hkept rfl
    refine ⟨before, inner ++ [word], middle, ?_, hinner.append (.other hremembers hrestores), hbefore, hmiddle⟩
    simp only [List.append_assoc, List.cons_append]

theorem remembered_eq_nil_iff (hleads : Leads state front last) (hstart : state.remembered = []) :
    last.remembered = [] ↔ ¬ HasPartner front := by
  constructor
  · rintro hempty ⟨before, inner, rfl, hinner⟩
    obtain ⟨middle, -, hrest⟩ := leads_append.mp hleads
    obtain _ | ⟨step, hrest⟩ := hrest
    obtain ⟨-, -, hremembered⟩ := outcome_of_step step
    rw [hinner.remembered_eq hrest, hremembered] at hempty
    cases hempty
  · intro hnone
    cases hlast : last.remembered with
    | nil => rfl
    | cons row remembered =>
      obtain ⟨before, inner, -, hfront, hinner, -⟩ := exists_remembering hleads hstart hlast
      exact absurd ⟨before, inner, hfront, hinner⟩ hnone

/-! ## The machine -/

variable (state words) in
/-- Where the words of a program lead the machine, which is the same for every host. -/
theorem words_cases (m : Machine) :
    ∃ front last, Leads state front last ∧
      ((∀ {σ : Type} (host : Host σ) (s : σ),
          Run.words host none (words.map .frame) ({ m with unwinding := some state }, s) =
            .ok () ({ m with unwinding := some last }, s)) ∨
        ∃ back, words = front ++ .restoreState :: back ∧ last.remembered = [] ∧
          ∀ {σ : Type} (host : Host σ) (s : σ),
            Run.words host none (words.map .frame) ({ m with unwinding := some state }, s) =
              .error (.stackUnderflow (.operand (.frame .restoreState))) ({ m with unwinding := some last }, s)) := by
  induction words generalizing state with
  | nil => exact ⟨[], state, .done state, .inl fun _ _ => rfl⟩
  | cons word rest ih =>
    have hrun {σ : Type} (host : Host σ) (s : σ) :=
      words_frames_cons host word rest (m := { m with unwinding := some state }) s rfl
    cases outcome state word with
    | goesOn step =>
      simp only [step] at hrun
      obtain ⟨front, last, hleads, hruns | ⟨back, rfl, hempty, hfails⟩⟩ := ih _
      · refine ⟨word :: front, last, .cons step hleads, .inl fun host s => ?_⟩
        exact (hrun host s).trans (hruns host s)
      · refine ⟨word :: front, last, .cons step hleads, .inr ⟨back, rfl, hempty, fun host s => ?_⟩⟩
        exact (hrun host s).trans (hfails host s)
    | stops step =>
      simp only [step] at hrun
      exact ⟨[], state, .done state, .inl hrun⟩
    | fails restores empty step =>
      simp only [step] at hrun
      exact ⟨[], state, .done state, .inr ⟨rest, by rw [restores, List.nil_append], empty, hrun⟩⟩

/--
The program of a description leaves the machine and its host as they are, but for the state of call frame words,
whose location does not pass the target address. It fails only at a word that goes back to a row without a partner
that remembers it.
-/
theorem programAt_harmless {table : Table} {address start : UInt32} {program : Program}
    (h : table.programAt address = .ok (some (program, start))) (target : UInt32) (m : Machine) :
    ∃ state : Unwinding, (start ≤ target → state.location ≤ target) ∧
      ((∀ {σ : Type} (host : Host σ) (s : σ),
          Run.program host program (m.primed start target, s) = .ok () ({ m with unwinding := some state }, s)) ∨
        ∃ front back, program = (front ++ .restoreState :: back).map .frame ∧
          Leads { location := start, target } front state ∧ ¬ HasPartner front ∧
          ∀ {σ : Type} (host : Host σ) (s : σ),
            Run.program host program (m.primed start target, s) =
              .error (.stackUnderflow (.operand (.frame .restoreState))) ({ m with unwinding := some state }, s)) := by
  obtain ⟨d, common, initial, own, -, -, -, -, rfl, rfl⟩ := programAt_eq h
  obtain ⟨front, last, hleads, hends⟩ := words_cases { location := d.start, target }
    (FrameWord.returnAddressRegister common.returnAddressRegister :: (initial ++ .initialEnd :: own)) m
  refine ⟨last, hleads.location_le, ?_⟩
  obtain hruns | ⟨back, hwords, hempty, hfails⟩ := hends
  · exact .inl hruns
  · exact .inr ⟨front, back, by rw [hwords], hleads, (remembered_eq_nil_iff hleads rfl).mp hempty, hfails⟩

/-- Code at `0x100` that remembers a row once and goes back to it twice. -/
def restoredTwice : Table where
  bytes :=
    #[12, 0, 0, 0, 0xff, 0xff, 0xff, 0xff, 1, 0, 2, 0x7c, 14, 0x0c, 13, 0,
      20, 0, 0, 0, 0, 0, 0, 0, 0, 1, 0, 0, 0x40, 0, 0, 0,
      0x0a, 0x41, 0x0e, 8, 0x0b, 0x41, 0x0b, 0]
  descriptions := #[⟨16, 0, 0x100, 0x40, [0x0a, 0x41, 0x0e, 8, 0x0b, 0x41, 0x0b, 0]⟩]

def restoredTwiceProgram : Program :=
  [FrameWord.returnAddressRegister 14, .defCfa 13 0, .initialEnd, .rememberState, .advance 2, .defCfaOffset 8,
    .restoreState, .advance 2, .restoreState].map .frame

/-- A host that fails whatever it is asked. -/
def silentHost : Host Unit where
  readMemory _ _ := throw .cfaUnavailable
  readRegister _ := throw .cfaUnavailable
  entryValue _ := throw .cfaUnavailable

theorem programAt_restoredTwice :
    restoredTwice.programAt 0x104 = .ok (some (restoredTwiceProgram, 0x100)) ∧
      ∃ front back state, restoredTwiceProgram = (front ++ .restoreState :: back).map .frame ∧
        ¬ HasPartner front ∧ state.location ≤ 0x104 ∧
        Run.program silentHost restoredTwiceProgram (Machine.primed { stack := [7] } 0x100 0x104, ()) =
          .error (.stackUnderflow (.operand (.frame .restoreState))) ({ stack := [7], unwinding := some state }, ()) := by
  have hprogram : restoredTwice.programAt 0x104 = .ok (some (restoredTwiceProgram, 0x100)) := rfl
  obtain ⟨state, hlocation, hruns | ⟨front, back, hwords, -, hpartner, hfails⟩⟩ :=
    programAt_harmless hprogram 0x104 { stack := [7] }
  · cases hruns silentHost ()
  · exact ⟨hprogram, front, back, state, hwords, hpartner, hlocation (by decide), hfails silentHost ()⟩

end CallFrame

end FirmwareDebug
