import FirmwareDebug.Proofs.CallFrame.Refinement
import FirmwareDebug.Proofs.Machine

/-!
# Callers as the unwind table prescribes them

From the bytes of a section to the registers of the caller: what is found by the program of a
description is what the last row of its table at the address prescribes.
-/

namespace FirmwareDebug.CallFrame

/-! ## Call frame words in the machine -/

variable {σ : Type}

theorem stepFrame_eq {word : FrameWord} {state : Unwinding} {m : Machine} (s : σ)
    (hm : m.unwinding = some state) :
    (Run.stepFrame word : Run σ Bool) (m, s) = match state.step word with
      | .error e => .error e (m, s)
      | .ok none => .ok false (m, s)
      | .ok (some next) => .ok true ({ m with unwinding := some next }, s) := by
  rcases hstep : state.step word with e | _ | next <;> simp only [Run.run_stepFrame, hm, hstep]

theorem words_frame_cons (host : Host σ) (word : FrameWord) (rest : Program) :
    Run.words host none (.frame word :: rest) =
      Run.stepFrame word >>= fun goes => if goes then Run.words host none rest else pure () := rfl

theorem words_frames_cons (host : Host σ) (word : FrameWord) (rest : List FrameWord) {state : Unwinding} {m : Machine}
    (s : σ) (hm : m.unwinding = some state) :
    Run.words host none ((word :: rest).map .frame) (m, s) = match state.step word with
      | .error e => .error e (m, s)
      | .ok none => .ok () (m, s)
      | .ok (some next) => Run.words host none (rest.map .frame) ({ m with unwinding := some next }, s) := by
  rw [List.map_cons, words_frame_cons, run_bind, stepFrame_eq s hm]
  rcases state.step word with e | _ | next <;> rfl

theorem words_frames (host : Host σ) {words : List FrameWord} {state after : Unwinding} {m : Machine} (s : σ)
    (hm : m.unwinding = some state) (hrun : runFrames state words = .ok after) :
    Run.words host none (words.map .frame) (m, s) = .ok () ({ m with unwinding := some after }, s) := by
  induction words generalizing state m with
  | nil =>
    cases hrun
    rw [← hm]
    rfl
  | cons word rest ih =>
    rw [words_frames_cons host word rest s hm]
    rw [runFrames] at hrun
    cases hnext : state.step word with
    | error e =>
      rw [hnext] at hrun
      cases hrun
    | ok found =>
      rw [hnext] at hrun
      cases found with
      | none =>
        cases hrun
        rw [← hm]
      | some next => exact ih rfl hrun

theorem words_frames_error (host : Host σ) {words : List FrameWord} {state : Unwinding} {m : Machine} (s : σ)
    {e : Fault} (hm : m.unwinding = some state) (hrun : runFrames state words = .error e) :
    ∃ m', Run.words host none (words.map .frame) (m, s) = .error e (m', s) := by
  induction words generalizing state m with
  | nil => cases hrun
  | cons word rest ih =>
    rw [words_frames_cons host word rest s hm]
    rw [runFrames] at hrun
    cases hnext : state.step word with
    | error e =>
      rw [hnext] at hrun
      cases hrun
      exact ⟨m, rfl⟩
    | ok found =>
      rw [hnext] at hrun
      cases found with
      | none => cases hrun
      | some next => exact ih rfl hrun

theorem unwindRowAt_frames (words : List FrameWord) (start address : UInt32) (host : Host Unit) :
    unwindRowAt (words.map .frame) start address host =
      (runFrames { location := start, target := address } words).map Unwinding.row := by
  unfold unwindRowAt Run.program
  cases hrun : runFrames { location := start, target := address } words with
  | error e =>
    obtain ⟨m', hwords⟩ := words_frames_error host () (m := ({} : Machine).primed start address) rfl hrun
    rw [hwords]
    rfl
  | ok after =>
    rw [words_frames host () (m := ({} : Machine).primed start address) rfl hrun]
    rfl

/-! ## The program of a description -/

theorem bytes_of_read {bytes : Bytes} {table : Table} (h : Table.read bytes = .ok table) :
    table.bytes = bytes := by
  obtain ⟨found, -, hfound⟩ := ok_of_bind h
  cases hfound
  rfl

theorem covers_of_descriptionAt {table : Table} {address : UInt32} {d : Description}
    (h : table.descriptionAt address = some d) : d.covers address := by
  unfold Table.descriptionAt at h
  simp only at h
  split at h
  · cases h
  · exact (Option.filter_eq_some_iff.mp h).2

theorem programAt_eq {table : Table} {address start : UInt32} {program : Program}
    (h : table.programAt address = .ok (some (program, start))) :
    ∃ d common initial own, table.descriptionAt address = some d ∧
      CommonEntry.read table.bytes d.commonEntry = .ok common ∧
      words common common.instructions = .ok initial ∧ words common d.instructions = .ok own ∧
      program = (FrameWord.returnAddressRegister common.returnAddressRegister ::
        (initial ++ .initialEnd :: own)).map .frame ∧
      start = d.start := by
  unfold Table.programAt at h
  split at h
  · cases h
  · rename_i d hd
    cases hprogram : table.programOf d with
    | error e =>
      rw [hprogram] at h
      cases h
    | ok found =>
      rw [hprogram] at h
      cases h
      simp only [Table.programOf, bind_eq_ok_iff, pure_eq_ok_iff] at hprogram
      obtain ⟨common, hcommon, initial, hinitial, own, hown, hprogram⟩ := hprogram
      cases hprogram
      refine ⟨d, common, initial, own, hd, hcommon, hinitial, hown, ?_, rfl⟩
      simp only [List.append_assoc, List.cons_append, List.nil_append]

/-- The machine's row at an address is the last row of the table there. -/
theorem unwindRowAt_eq (ra : UInt32) {d : Description} {initial own : List Instruction} {last : TableState}
    {address : UInt32} (hcovers : d.covers address)
    (hrun : TableState.run { location := d.start.toNat } (initial ++ .commonEnd :: own) = some last)
    (hordered : Ordered last.rows) :
    ∃ row entry, rowAt last.rows address.toNat = some entry ∧ RowMatches ra row entry ∧
      ∀ host, unwindRowAt ((FrameWord.returnAddressRegister ra ::
        (frameWords initial ++ .initialEnd :: frameWords own)).map .frame) d.start address host = .ok row := by
  let start : Unwinding := { location := d.start, target := address }
  have hstart : StateMatches ra (start.mapRow ({ · with returnAddressRegister := ra }))
      { location := d.start.toNat } := by
    refine ⟨rfl, ?_, rowMatches_default ra, .none, .nil⟩
    simp only [Description.covers, Bool.and_eq_true, decide_eq_true_eq] at hcovers
    exact hcovers.1
  obtain ⟨after, entry, hframes, hentry, hrow⟩ := runFrames_rowAt hstart hrun hordered
  refine ⟨after.row, entry, hentry, hrow, fun host => ?_⟩
  have hwords : frameWords (initial ++ .commonEnd :: own) = frameWords initial ++ .initialEnd :: frameWords own := by
    rw [frameWords, List.filterMap_append]
    rfl
  have hall : runFrames start (FrameWord.returnAddressRegister ra ::
      (frameWords initial ++ .initialEnd :: frameWords own)) = .ok after := by
    rw [← hwords]
    exact hframes
  rw [unwindRowAt_frames, hall]
  rfl

/-! ## The caller by a row -/

variable {frame : RegisterFrame} {target : Target} {ra : UInt32} {row : UnwindRow} {entry : TableRow}

theorem offsetBy_eq (base : UInt32) (offset : Int) :
    base + (Int32.ofInt offset).toUInt32 = offsetBy base offset := by
  have hcut : (Int32.ofInt offset).toUInt32 = UInt32.ofInt offset := by
    apply UInt32.toBitVec_inj.mp
    change BitVec.ofInt 32 offset = (UInt32.ofInt offset).toBitVec
    apply BitVec.eq_of_toNat_eq
    simp only [UInt32.ofInt, BitVec.toNat_ofInt, UInt32.toNat_toBitVec, UInt32.toNat_ofNat']
    omega
  have hbase : UInt32.ofInt base.toNat = base := by
    have := base.toNat_lt
    apply UInt32.toNat_inj.mp
    simp only [UInt32.ofInt, UInt32.toNat_ofNat']
    omega
  rw [offsetBy, UInt32.ofInt_add, hbase, hcut]

theorem cut_eq_undefined {rule : Rule} : rule.cut = .undefined ↔ rule = .undefined := by
  cases rule <;> simp [Rule.cut]

theorem recover_eq (cfa : UInt32) (rule : Rule) {i : Nat} (hi : i < 16) :
    frame.recover target cfa (frame.toList.getD i 0) rule.cut =
      recovered frame target cfa (UInt32.ofNat i) rule := by
  have hkept : Except.ok (frame.toList.getD i 0) = frame.get? (UInt32.ofNat i) := by
    have htoNat : (UInt32.ofNat i).toNat = i := by
      rw [UInt32.toNat_ofNat']
      omega
    simp [RegisterFrame.get?, htoNat, hi]
  cases rule with
  | undefined => exact hkept
  | sameValue => exact hkept
  | saved offset => rw [Rule.cut, RegisterFrame.recover, offsetBy_eq, recovered]
  | value offset => rw [Rule.cut, RegisterFrame.recover, offsetBy_eq, recovered]
  | copied source => rfl

@[simp]
theorem get_ofList (values : List UInt32) (i : Fin 16) :
    (RegisterFrame.ofList values).get i = values.getD i 0 := by
  show (RegisterFrame.ofList values)[i.val] = values.getD i 0
  simp [RegisterFrame.ofList]

theorem put_eq_set (frame : RegisterFrame) {register : Nat} (h : register < 16) (value : UInt32) :
    frame.put register value = frame.set register value h := by
  ext i hi
  simp only [RegisterFrame.put, Vector.getElem_setIfInBounds, Vector.getElem_set]

variable (frame target) in
theorem recoverAll_cases (cfa : UInt32) (hrow : RowMatches ra row entry) :
    (∃ values : RegisterFrame, frame.recoverAll target cfa row = .ok values ∧
      ∀ i : Fin 16, recovered frame target cfa (UInt32.ofNat i) (entry.rules (UInt32.ofNat i)) =
        .ok (values.get i)) ∨
      ∃ (i : Fin 16) (e : Fault), frame.recoverAll target cfa row = .error e ∧
        (∀ j < i, ∃ value, recovered frame target cfa (UInt32.ofNat j)
          (entry.rules (UInt32.ofNat j)) = .ok value) ∧
        recovered frame target cfa (UInt32.ofNat i) (entry.rules (UInt32.ofNat i)) = .error e := by
  have hrecover : ∀ i < 16, frame.recover target cfa (frame.toList.getD i 0) (row.rule (UInt32.ofNat i)) =
      recovered frame target cfa (UInt32.ofNat i) (entry.rules (UInt32.ofNat i)) := by
    intro i hi
    have hcore : UInt32.ofNat i < 16 := by
      rw [UInt32.lt_iff_toNat_lt, UInt32.toNat_ofNat']
      exact Nat.lt_of_le_of_lt (Nat.mod_le _ _) hi
    rw [hrow.rules _ hcore, recover_eq cfa _ hi]
  rcases mapM_cases (fun i => frame.recover target cfa (frame.toList.getD i 0) (row.rule (UInt32.ofNat i)))
    (List.range 16) with ⟨values, hvalues, hall⟩ | ⟨front, a, back, e, hrange, hfront, ha, hfail⟩
  · refine .inl ⟨.ofList values, ?_, ?_⟩
    · rw [RegisterFrame.recoverAll, hvalues]
      rfl
    · intro i
      have hlength : values.length = 16 := by rw [← hall.length_eq, List.length_range]
      have hi := hall.get (i := i) (by simp) (by omega)
      simp only [List.get_eq_getElem, List.getElem_range] at hi
      rw [← hrecover i i.isLt, hi, get_ofList, List.getD_eq_getElem?_getD,
        List.getElem?_eq_getElem (by omega)]
      rfl
  · have hat : (List.range 16)[front.length]? = some a := by
      rw [hrange, List.getElem?_append_right (Nat.le_refl _), Nat.sub_self]
      rfl
    obtain ⟨hlt, rfl⟩ := List.getElem?_eq_some_iff.mp hat
    rw [List.getElem_range] at ha
    rw [List.length_range] at hlt
    refine .inr ⟨⟨front.length, hlt⟩, e, ?_, ?_, ?_⟩
    · rw [RegisterFrame.recoverAll, hfail]
      rfl
    · intro j hj
      have hmem : (j : Nat) ∈ front := by
        have hjfront : (j : Nat) < front.length := hj
        have hfront : (List.range 16)[(j : Nat)]? = front[(j : Nat)]? := by
          rw [hrange, List.getElem?_append_left hjfront]
        rw [List.getElem?_range (by omega)] at hfront
        exact List.mem_of_getElem? hfront.symm
      obtain ⟨value, hvalue⟩ := hfront j hmem
      exact ⟨value, by rw [← hrecover j j.isLt, hvalue]⟩
    · rw [← hrecover _ hlt, ha]

theorem callerByRow_prescribed (hrow : RowMatches ra row entry) (hra : ra < 16) :
    Prescribes frame target ra entry (frame.callerByRow target row) := by
  unfold RegisterFrame.callerByRow
  rw [hrow.cfa, hrow.returnAddress, hrow.rules ra hra]
  cases hcfa : entry.cfa with
  | none => exact .noCfa hcfa
  | some cfa =>
    obtain ⟨register, offset⟩ := cfa
    simp only [Option.map_some, cut_eq_undefined]
    by_cases hundefined : entry.rules ra = .undefined
    · rw [if_pos hundefined]
      exact .outermost hundefined
    rw [if_neg hundefined]
    cases hbase : frame.get? register with
    | error e => exact .noBase hcfa hundefined hbase
    | ok base =>
      rcases recoverAll_cases frame target (offsetBy base offset) hrow with
        ⟨values, hvalues, hall⟩ | ⟨i, e, hfail, hbefore, hfault⟩
      · have hra' : ra.toNat < 16 := UInt32.lt_iff_toNat_lt.mp hra
        have hget : values.get? ra = .ok values[ra.toNat] := by
          simp [RegisterFrame.get?, hra']
        have hreturn := hall ⟨ra.toNat, hra'⟩
        simp only [UInt32.ofNat_toNat] at hreturn
        simp only [bind, Except.bind, offsetBy_eq, hvalues, hget, put_eq_set _ RegisterFrame.sp_lt,
          put_eq_set _ RegisterFrame.pc_lt]
        exact .caller hcfa hundefined hbase hall hreturn
      · simp only [bind, Except.bind, offsetBy_eq, hfail]
        exact .lost i hcfa hundefined hbase hbefore hfault

theorem callerByRow_untracked (hrow : RowMatches ra row entry) (hra : 16 ≤ ra) :
    frame.callerByRow target row = .ok none := by
  have hrule : row.rule ra = .undefined := by
    have hsize : ¬ ra.toNat < 16 := Nat.not_lt.mpr (UInt32.le_iff_toNat_le.mp hra)
    simp [UnwindRow.rule, hsize]
  unfold RegisterFrame.callerByRow
  rw [hrow.returnAddress, hrule]
  cases row.cfa <;> rfl

/-! ## The theorem -/

/--
Whatever the table of the description at an address says there is what unwinding by the program of the
description does, in every frame stopped at the address. The return address must be in one of the
registers that frames have; otherwise there is no caller.
-/
theorem callerByProgram_prescribed {bytes : Bytes} {table : Table} {pc start : UInt32} {program : Program}
    (hread : Table.read bytes = .ok table)
    (hprogram : table.programAt pc = .ok (some (program, start))) :
    ∃ d common, table.descriptionAt pc = some d ∧ CommonEntry.read bytes d.commonEntry = .ok common ∧
      ∀ rows, IsTable common d rows → Ordered rows → ∃ entry, rowAt rows pc.toNat = some entry ∧
        ∀ (frame : RegisterFrame) (target : Target), frame.pc = pc →
          (common.returnAddressRegister < 16 →
            Prescribes frame target common.returnAddressRegister entry
              (frame.callerByProgram target program start)) ∧
          (16 ≤ common.returnAddressRegister → frame.callerByProgram target program start = .ok none) := by
  obtain ⟨d, common, initialWords, ownWords, hd, hcommon, hinitial, hown, rfl, rfl⟩ := programAt_eq hprogram
  rw [bytes_of_read hread] at hcommon
  refine ⟨d, common, hd, hcommon, ?_⟩
  rintro rows ⟨initial, own, last, hinstructions, hinstructions', hrun, rfl⟩ hordered
  rw [words_eq common hinstructions] at hinitial
  rw [words_eq common hinstructions'] at hown
  cases hinitial
  cases hown
  obtain ⟨row, entry, hentry, hrow, hfound⟩ := unwindRowAt_eq common.returnAddressRegister
    (covers_of_descriptionAt hd) hrun hordered
  refine ⟨entry, hentry, fun frame target hpc => ?_⟩
  have hcaller (program : Program) (h : ∀ host, unwindRowAt program d.start pc host = .ok row) :
      frame.callerByProgram target program d.start = frame.callerByRow target row := by
    rw [RegisterFrame.callerByProgram, hpc, h]
    rfl
  rw [hcaller _ hfound]
  exact ⟨callerByRow_prescribed hrow, callerByRow_untracked hrow⟩

/-! ## A section with one description -/

/-- Code at `0x100` that saves the return address in its first instruction. -/
def sampleDescription (returnAddress : UInt8) : Description :=
  ⟨16, 0, 0x100, 0x40, [0x41, 0x0e, 8, 0x80 + returnAddress, 1, 0x48, 0x0e, 0]⟩

def sampleCommon (returnAddress : UInt8) : CommonEntry :=
  ⟨0, 1, "", 2, -4, returnAddress.toUInt32, [0x0c, 13, 0]⟩

def sampleTable (returnAddress : UInt8) : Table where
  bytes :=
    #[12, 0, 0, 0, 0xff, 0xff, 0xff, 0xff, 1, 0, 2, 0x7c, returnAddress, 0x0c, 13, 0,
      20, 0, 0, 0, 0, 0, 0, 0, 0, 1, 0, 0, 0x40, 0, 0, 0,
      0x41, 0x0e, 8, 0x80 + returnAddress, 1, 0x48, 0x0e, 0]
  descriptions := #[sampleDescription returnAddress]

/-- The row behind the first instruction. -/
def sampleRow (returnAddress : UInt32) : TableRow where
  cfa := some (13, 8)
  rules r := if r = returnAddress then .saved (-4) else ({} : TableRow).rules r

def sampleRows (returnAddress : UInt32) : List (Nat × TableRow) :=
  [(0x100, { cfa := some (13, 0) }), (0x102, sampleRow returnAddress),
    (0x112, { sampleRow returnAddress with cfa := some (13, 0) })]

def sampleProgram (returnAddress : UInt32) : Program :=
  [FrameWord.returnAddressRegister returnAddress, .defCfa 13 0, .initialEnd, .advance 2, .defCfaOffset 8,
    .offset returnAddress (-4), .advance 16, .defCfaOffset 0].map .frame

/-- Stopped at `0x104`. -/
def sampleFrame : RegisterFrame := (RegisterFrame.put (Vector.replicate 16 0) 13 0x2000).put 15 0x104

/-- Memory that holds one byte everywhere. -/
def sampleTarget : Target := ⟨fun _ length => .ok (List.replicate length 0x21), sampleFrame.get?⟩

section

variable {returnAddress : UInt8} (h : returnAddress = 14 ∨ returnAddress = 20)
include h

theorem read_sample : Table.read (sampleTable returnAddress).bytes = .ok (sampleTable returnAddress) := by
  have hfound : (Decoded.ofCursor readDescription (.place region (sampleTable returnAddress).bytes 0)).all =
      .ok [none, some (sampleDescription returnAddress)] := by
    rcases h with rfl | rfl <;> rfl
  unfold Table.read
  rw [hfound]
  simp [bind, Except.bind, pure, Except.pure, sampleTable]

theorem common_sample :
    CommonEntry.read (sampleTable returnAddress).bytes 0 = .ok (sampleCommon returnAddress) := by
  rcases h with rfl | rfl <;> rfl

theorem programAt_sample :
    (sampleTable returnAddress).programAt 0x104 =
      .ok (some (sampleProgram returnAddress.toUInt32, 0x100)) := by
  rcases h with rfl | rfl <;> rfl

theorem isTable_sample :
    IsTable (sampleCommon returnAddress) (sampleDescription returnAddress)
      (sampleRows returnAddress.toUInt32) := by
  rcases h with rfl | rfl
  all_goals
    refine ⟨[.cfa 13 0], [.advance 2, .cfaOffset 8, .rule _ (.saved (-4)), .advance 16, .cfaOffset 0], _,
      .next (by decide) rfl .finished, ?_, rfl, rfl⟩
    exact .next (by decide) rfl <| .next (by decide) rfl <| .next (by decide) rfl <|
      .next (by decide) rfl <| .next (by decide) rfl .finished

end

theorem ordered_sample (returnAddress : UInt32) : Ordered (sampleRows returnAddress) := by
  constructor <;> simp [sampleRows]

theorem prescribed_sample :
    Prescribes sampleFrame sampleTarget 14 (sampleRow 14)
      (sampleFrame.callerByProgram sampleTarget (sampleProgram 14) 0x100) := by
  obtain ⟨d, common, hd, hcommon, hcaller⟩ :=
    callerByProgram_prescribed (read_sample (.inl rfl)) (programAt_sample (.inl rfl))
  have hsample : (sampleTable 14).descriptionAt 0x104 = some (sampleDescription 14) := rfl
  rw [hsample] at hd
  cases hd
  cases hcommon.symm.trans (common_sample (.inl rfl))
  obtain ⟨entry, hentry, hcaller⟩ := hcaller _ (isTable_sample (.inl rfl)) (ordered_sample 14)
  cases hentry
  exact (hcaller sampleFrame sampleTarget rfl).1 (by decide)

/-- With a return address in a register that frames do not have, the saved word is lost. -/
theorem not_prescribed_sample :
    Table.read (sampleTable 20).bytes = .ok (sampleTable 20) ∧
      (sampleTable 20).programAt 0x104 = .ok (some (sampleProgram 20, 0x100)) ∧
      (sampleTable 20).descriptionAt 0x104 = some (sampleDescription 20) ∧
      CommonEntry.read (sampleTable 20).bytes 0 = .ok (sampleCommon 20) ∧
      IsTable (sampleCommon 20) (sampleDescription 20) (sampleRows 20) ∧ Ordered (sampleRows 20) ∧
      rowAt (sampleRows 20) 0x104 = some (sampleRow 20) ∧
      ¬ Prescribes sampleFrame sampleTarget 20 (sampleRow 20)
        (sampleFrame.callerByProgram sampleTarget (sampleProgram 20) 0x100) := by
  refine ⟨read_sample (.inr rfl), programAt_sample (.inr rfl), rfl, common_sample (.inr rfl),
    isTable_sample (.inr rfl), ordered_sample 20, rfl, ?_⟩
  have hnone : sampleFrame.callerByProgram sampleTarget (sampleProgram 20) 0x100 = .ok none := rfl
  rw [hnone]
  intro h
  cases h with
  | noCfa undefined => cases undefined
  | outermost undefined => cases undefined

end FirmwareDebug.CallFrame
