import FirmwareDebug.Proofs.Backtrace
import FirmwareDebug.Proofs.Decoding.Information
import FirmwareDebug.Proofs.EntryValue

/-!
# Data that cannot be had

Only the target and the frames of a session can lack data. Evaluations and walks catch all faults that
say so: a place is invalid then, and a walk ends. What else they ask for is decoded, and fails with
faults that last.
-/

namespace FirmwareDebug

variable {α : Type}

/-! ## Where data can be missing -/

instance {q : Query α} [h : Decoding q] : Decoding (Evaluation.query q) := by
  refine .of_lasting fun s e s' hrun => ?_
  unfold Evaluation.query at hrun
  split at hrun <;> cases hrun
  exact h.lasting ‹_›

instance {q : Query α} : Decoding (Fixed.ifAvailable q) := by
  refine .of_lasting fun recent e last hrun => ?_
  unfold Fixed.ifAvailable at hrun
  split at hrun
  · cases hrun
  · split at hrun <;> cases hrun
    exact ⟨Bool.eq_false_iff.mpr ‹_›⟩

instance (registers : UInt32 → Except Fault UInt32) (host : Host (Option Nat)) (cfa : Option UInt32)
    (frameBase : Option Program) (program : Program) :
    Decoding (Fixed.locate registers host cfa frameBase program) := by
  unfold Fixed.locate
  infer_instance

namespace DebugInfo

variable (info : DebugInfo) (target : Target)

/-- The place that a location program gives, or the reason why it gives none. -/
def placeOf (host : Host Session) (cfa : Option UInt32) (frameBase : Option Program) (program : Program) :
    Evaluation Location := do
  let (outcome, machine) ← runOn host program (← readyMachine host cfa frameBase)
  liftExcept outcome
  return machine.location

theorem locate_of_unavailable {host : Host Session} {cfa : Option UInt32} {frameBase : Option Program}
    {program : Program} {s s' : Session} {e : Fault} (h : placeOf host cfa frameBase program s = .error e s')
    (he : e.isUnavailable) : locate host cfa frameBase program s = .ok .invalid s' := by
  have hnone : Evaluation.ifAvailable (placeOf host cfa frameBase program) s = .ok none s' := by
    unfold Evaluation.ifAvailable
    rw [h]
    dsimp only
    rw [if_pos he]
  show (Evaluation.ifAvailable (placeOf host cfa frameBase program) >>= _) s = _
  rw [run_bind_of_ok hnone]
  rfl

/-! ## Evaluations -/

theorem decoding_evaluateLocation (cfa : Option UInt32) (frameBase : Option Program) (program : Program) :
    Decoding (info.evaluateLocation target cfa frameBase program) := by
  refine .of_lasting fun s e s' hrun => ?_
  rw [(asQuery_evaluateLocation cfa frameBase program).run_eq rfl] at hrun
  unfold Fixed.evaluateLocation at hrun
  exact Decoding.lasting hrun

theorem decoding_fixedObject {cache : RegisterCache} {frame : Nat} (hframe : frame < cache.frames.length)
    (object : DataObject) (size : Nat) : Decoding (Fixed.evaluateObject info target cache frame object size) := by
  have hregisters : Decodes (cache.frame frame) := by
    unfold RegisterCache.frame
    rw [List.getElem?_eq_getElem hframe]
    infer_instance
  unfold Fixed.evaluateObject Fixed.evaluateLocation
  refine .andThen fun registers => .andThen fun program => ?_
  split <;> infer_instance

theorem lasting_of_evaluateObject {frame size : Nat} {object : DataObject} {s s' : Session} {e : Fault}
    (hframe : frame < s.registers.frames.length)
    (h : info.evaluateObject target frame object size s = .error e s') : Lasting e := by
  rw [(asQuery_evaluateObject frame object size).run_eq rfl] at h
  have := info.decoding_fixedObject target hframe object size
  exact Decoding.lasting h

/-! ## Walks -/

instance (number : Nat) (frame : RegisterFrame) (status : FrameStatus) :
    Decoding (info.describeFrame number frame status) := by
  unfold describeFrame
  refine .andThen fun context => ?_
  dsimp only
  split <;> infer_instance

instance (number : Nat) (frame : RegisterFrame) : Decodes (info.callerOf target number frame) := by
  unfold callerOf
  refine .andThen fun rules => ?_
  dsimp only
  split
  · infer_instance
  · split
    · infer_instance
    · have : Lasting _ := ⟨Bool.eq_false_iff.mpr ‹_›⟩
      infer_instance

theorem callerOf_of_unavailable {number : Nat} {frame : RegisterFrame} {rules : Option (Program × UInt32)}
    {e : Fault} (hrules : info.frames.programAt (frame.lookupAddress number) = .ok rules)
    (h : callerByRules frame target rules = .error e) (he : e.isUnavailable) :
    info.callerOf target number frame = .ok none := by
  unfold callerOf
  rw [hrules]
  simp only [bind, Except.bind, h]
  rw [if_pos he]
  rfl

theorem walk_of_noCaller {number : Nat} {frame : RegisterFrame} (h : info.callerOf target number frame = .ok none)
    (budget : Nat) (status : FrameStatus) :
    info.walk target (budget + 1) number frame status =
      (do return [← Evaluation.query (info.describeFrame number frame status)]) := by
  unfold walk
  rw [h]
  refine congrArg _ (funext fun described => ?_)
  split <;> rfl

theorem decoding_walk (budget number : Nat) (frame : RegisterFrame) (status : FrameStatus) :
    Decoding (info.walk target budget number frame status) := by
  induction budget generalizing number frame status with
  | zero =>
    unfold walk
    infer_instance
  | succ budget ih =>
    unfold walk
    refine .andThen fun described => ?_
    split
    · infer_instance
    · refine .andThen fun unwound => ?_
      split
      · infer_instance
      · split <;> infer_instance

theorem decoding_backtrace {registers : RegisterFrame} (h : target.readRegisters = .ok registers) (limit : Nat) :
    Decoding (info.backtrace target limit) := by
  have hwalk := info.decoding_walk target
  unfold backtrace
  rw [h]
  infer_instance

/-! ## The theorem -/

/-- Sections, and what is asked of debug information alone, fail with faults that last. -/
structure DecodersLast (info : DebugInfo) : Prop where
  form : ∀ encoding implicit form, Decoding (Form.read encoding implicit form)
  abbreviations : ∀ section' offset, Decodes (AbbreviationTable.read section' offset)
  unitHeaders : ∀ sections : Sections, Decodes sections.unitHeaders
  textOf : ∀ (sections : Sections) bases value, Decodes (sections.textOf bases value)
  addressOf : ∀ (sections : Sections) bases value, Decodes (sections.addressOf bases value)
  rangesOf : ∀ (sections : Sections) bases value, Decodes (sections.rangesOf bases value)
  locationsOf : ∀ (sections : Sections) bases value, Decodes (sections.locationsOf bases value)
  callFrames : ∀ section', Decodes (CallFrame.Table.read section')
  commonEntry : ∀ section' offset, Decodes (CallFrame.CommonEntry.read section' offset)
  lineHeader : ∀ section' texts offset, Decodes (LineTable.Header.read section' texts offset)
  rows : ∀ table : LineTable, Decodes table.rows
  lineOfAddress : ∀ (table : LineTable) address, Decodes (table.lineOfAddress address)
  build : ∀ sections, Decodes (DebugInfo.build sections)
  attributes : ∀ offset, Decodes (info.attributes offset)
  attribute? : ∀ offset name, Decodes (info.attribute? offset name)
  reference? : ∀ offset name, Decodes (info.reference? offset name)
  addressesOf : ∀ offset, Decodes (info.addressesOf offset)
  treeAt : ∀ offset levels, Decodes (info.treeAt offset levels)
  nameOf : ∀ offset, Decodes (info.nameOf offset)
  contextAt : ∀ pc, Decoding (info.contextAt pc)
  callReturningTo : ∀ address, Decoding (info.callReturningTo address)
  argumentIn : ∀ register parameters, Decodes (info.argumentIn register parameters)
  localObjects : ∀ context, Decodes (info.localObjects context)
  staticObjects : Decodes info.staticObjects
  functions : Decodes info.functions
  objectProgram : ∀ object pc, Decodes (info.objectProgram object pc)
  frameBaseProgram : ∀ context pc, Decodes (info.frameBaseProgram context pc)
  compile : ∀ mode unit expression, Decodes (Expression.compile info mode unit expression)
  programAt : ∀ address, Decodes (info.frames.programAt address)
  sourceLineOf : ∀ address, Decoding (info.sourceLineOf address)
  declarationOf : ∀ offset, Decodes (info.declarationOf offset)
  addressesOfLine : ∀ file line, Decodes (info.addressesOfLine file line)
  sourceFiles : Decodes info.sourceFiles
  readType : ∀ offset, Decoding (info.readType offset)
  typeText : ∀ nodes index, Decodes (info.typeText nodes index)
  typeName : ∀ nodes index, Decodes (info.typeName nodes index)
  layoutOf : ∀ nodes index, Decodes (info.layoutOf nodes index)

theorem decodersLast : info.DecodersLast := by
  constructor <;> infer_instance

/-- Faults that say that data cannot be had stay inside evaluations and walks. -/
structure NeverUnavailable (info : DebugInfo) (target : Target) : Prop where
  location : ∀ cfa frameBase program, Decoding (info.evaluateLocation target cfa frameBase program)
  object : ∀ frame object size s e s', frame < s.registers.frames.length →
    info.evaluateObject target frame object size s = .error e s' → Lasting e
  backtrace : ∀ registers limit, target.readRegisters = .ok registers → Decoding (info.backtrace target limit)
  /-- A location program that lacks data gives the invalid place. -/
  invalid : ∀ host cfa frameBase program s e s', placeOf host cfa frameBase program s = .error e s' →
    e.isUnavailable → locate host cfa frameBase program s = .ok .invalid s'
  /-- A frame whose caller cannot be had is the last one. -/
  ends : ∀ number frame rules e, info.frames.programAt (frame.lookupAddress number) = .ok rules →
    callerByRules frame target rules = .error e → e.isUnavailable → ∀ budget status,
      info.walk target (budget + 1) number frame status =
        (do return [← Evaluation.query (info.describeFrame number frame status)])
  decoders : info.DecodersLast

/--
No evaluation of a place or an object in an existing frame fails because data cannot be had, and no walk
does so once the registers of the target were read.
-/
theorem neverUnavailable : info.NeverUnavailable target where
  location := info.decoding_evaluateLocation target
  object _ _ _ _ _ _ hframe h := info.lasting_of_evaluateObject target hframe h
  backtrace _ limit h := info.decoding_backtrace target h limit
  invalid _ _ _ _ _ _ _ := locate_of_unavailable
  ends _ _ _ _ hrules h he := info.walk_of_noCaller target (info.callerOf_of_unavailable target hrules h he)
  decoders := info.decodersLast

/-- A target without memory, stopped where the return address is on the stack. -/
def bareTarget : Target := Snapshot.target { registers := deadEndFrame 0x2000 0 0x104 }

theorem unavailable_bare : (build deadEnd).toOption.bind (fun info =>
    (info.frames.programAt ((deadEndFrame 0x2000 0 0x104).lookupAddress 0)).toOption.map fun rules =>
      match callerByRules (deadEndFrame 0x2000 0 0x104) bareTarget rules with
      | .ok _ => false
      | .error e => e.isUnavailable) = some true := by
  decide +kernel

theorem walk_bare : ∃ info, build deadEnd = .ok info ∧
    bareTarget.readRegisters = .ok (deadEndFrame 0x2000 0 0x104) ∧ Decoding (info.backtrace bareTarget 4) ∧
      info.walk bareTarget 4 0 (deadEndFrame 0x2000 0 0x104) .current =
        (do return [← Evaluation.query (info.describeFrame 0 (deadEndFrame 0x2000 0 0x104) .current)]) := by
  have hregisters : bareTarget.readRegisters = .ok (deadEndFrame 0x2000 0 0x104) := by rfl
  have hbare := unavailable_bare
  cases hbuild : build deadEnd with
  | error e =>
    rw [hbuild] at hbare
    cases hbare
  | ok info =>
    simp only [hbuild, Except.toOption, Option.bind_some] at hbare
    cases hrules : info.frames.programAt ((deadEndFrame 0x2000 0 0x104).lookupAddress 0) with
    | error e =>
      rw [hrules] at hbare
      cases hbare
    | ok rules =>
      simp only [hrules, Option.map_some, Option.some.injEq] at hbare
      cases hcaller : callerByRules (deadEndFrame 0x2000 0 0x104) bareTarget rules with
      | ok caller =>
        rw [hcaller] at hbare
        cases hbare
      | error e =>
        rw [hcaller] at hbare
        have hnever := neverUnavailable info bareTarget
        exact ⟨info, rfl, hregisters, hnever.backtrace _ 4 hregisters,
          hnever.ends 0 _ rules e hrules hcaller hbare 3 .current⟩

end DebugInfo

end FirmwareDebug
