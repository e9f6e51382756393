import FirmwareDebug.Proofs.Nesting
import FirmwareDebug.Proofs.UnitMemory

/-!
# Frame bases that are not used

The program for the frame base runs on the machine that the location program runs on next. All that it
leaves there is the frame base, which only words for the frame base look at. What it leaves behind
otherwise is the unit found last by its entry values, and that one is looked at by entry values only.
-/

namespace FirmwareDebug

/-! ## Machines -/

namespace Machine

/-- The other machine may have another frame base. -/
def SameButBase (m n : Machine) : Prop := ∃ frameBase, n = { m with frameBase }

theorem related_sameButBase : Related SameButBase where
  stack_eq := fun ⟨_, h⟩ => by rw [h]
  cfa_eq := fun ⟨_, h⟩ => by rw [h]
  unwinding_eq := fun ⟨_, h⟩ => by rw [h]
  stack := fun ⟨frameBase, h⟩ _ => ⟨frameBase, by rw [h]⟩
  kind := fun ⟨frameBase, h⟩ => ⟨frameBase, by rw [h]⟩
  register := fun ⟨frameBase, h⟩ _ => ⟨frameBase, by rw [h]⟩
  closePiece := by
    rintro m _ ⟨frameBase, rfl⟩ size
    refine ⟨frameBase, ?_⟩
    unfold closePiece
    cases m.register <;> rfl
  unwinding := fun ⟨frameBase, h⟩ _ _ => ⟨frameBase, by rw [h]⟩

theorem SameButBase.location_eq {m n : Machine} (h : m.SameButBase n) : m.location = n.location := by
  obtain ⟨frameBase, rfl⟩ := h
  rfl

/-- The machine knows this frame address, and it is not ready for call frame words. -/
def Prepared (cfa : Option UInt32) (m n : Machine) : Prop := m = n ∧ m.cfa = cfa ∧ m.unwinding = none

theorem related_prepared (cfa : Option UInt32) : Related (Prepared cfa) where
  stack_eq h := congrArg _ h.1
  cfa_eq h := congrArg _ h.1
  unwinding_eq h := congrArg _ h.1
  stack := fun ⟨h, hm⟩ _ => ⟨by rw [h], hm⟩
  kind := fun ⟨h, hm⟩ => ⟨by rw [h], hm⟩
  register := fun ⟨h, hm⟩ _ => ⟨by rw [h], hm⟩
  closePiece := by
    rintro m _ ⟨rfl, hm⟩ size
    refine ⟨rfl, ?_⟩
    unfold closePiece
    cases m.register <;> exact hm
  unwinding := fun ⟨_, _, hm⟩ hready => absurd hm hready

theorem Prepared.reset_eq {cfa : Option UInt32} {m n : Machine} (h : Prepared cfa m n) (frameBase : Option UInt32) :
    { m.reset with frameBase } = { cfa, frameBase } := by
  obtain ⟨-, rfl, hunwinding⟩ := h
  unfold reset
  rw [hunwinding]

end Machine

/-- The host, but entry values cannot be had. -/
def Host.withoutEntryValues {σ : Type} (host : Host σ) : Host σ :=
  { host with entryValue := fun block => throw (.entryValueUnavailable (.notARegister block)) }

/-- A program that asks for no entry values runs alike with and without them. -/
theorem Run.words_withoutEntryValues {σ : Type} (host : Host σ) (skipped : Option Nat) {program : Program}
    (h : ∀ block, .entryValue block ∉ program) :
    words host.withoutEntryValues skipped program = words host skipped program := by
  have hrest {word : Word} {rest : Program} (h : ∀ block, .entryValue block ∉ word :: rest) block :
      .entryValue block ∉ rest := fun hmem => h block (List.mem_cons_of_mem word hmem)
  fun_induction words host skipped program with
  | case1 => rfl
  | case2 => rfl
  | case3 depth rest ih => exact ih (hrest h)
  | case4 rest ih => exact ih (hrest h)
  | case5 rest depth ih => exact ih (hrest h)
  | case6 depth word rest hopen hclose hword ih =>
    rw [words.eq_6 _ depth word rest hopen hclose hword]
    exact ih (hrest h)
  | case7 rest ih =>
    rw [words]
    exact congrArg _ (funext fun cell => ih cell (hrest h))
  | case8 word rest ih =>
    rw [words, ih (hrest h)]
  | case9 word rest hopen hword ih =>
    have hstep : step host.withoutEntryValues word = step host word := by
      cases word with
      | entryValue block => exact absurd List.mem_cons_self (h block)
      | _ => rfl
    rw [words.eq_9 _ word rest hopen hword, ih (hrest h), hstep]

/-- A place that is known, and not made of pieces. -/
def Location.isSingle : Location → Bool
  | .constant _ | .memory _ | .register _ => true
  | .invalid | .composite _ => false

/-- A program came to a single place, or it lacked data. -/
def settled : Except Fault Unit → Location → Bool
  | .ok _, place => place.isSingle
  | .error e, _ => e.isUnavailable

namespace Fixed

variable {R : Option Nat → Option Nat → Prop} {registers : UInt32 → Except Fault UInt32}
  {host other : Host (Option Nat)} {cfa : Option UInt32} {program : Program}

/-! ## Programs on related machines -/

/-- The place that a program gives on a machine. -/
def placeOn (host : Host (Option Nat)) (program : Program) (m : Machine) : Query Location := do
  let (outcome, machine) ← runOn host program m
  liftExcept outcome
  return machine.location

theorem locate_eq (frameBase : Option Program) : locate registers host cfa frameBase program =
    (do
      let location ← ifAvailable (readyMachine registers host cfa frameBase >>= placeOn host program)
      return location.getD .invalid) := rfl

theorem alike_self (host : Host (Option Nat)) : host.Alike Eq (fun _ => True) host :=
  ⟨fun _ _ => Alike.refl _, fun _ => Alike.refl _, fun _ => Alike.refl _⟩

/-- A program that does not look at the frame base gives the same place whatever the frame base is. -/
theorem placeOn_eq (hprogram : ∀ offset, .frameBase offset ∉ program) {m n : Machine} (hmn : m.SameButBase n) :
    placeOn host program m = placeOn host program n := by
  funext recent
  obtain ⟨outcome, m', n', last, _, hrun, hother, hmn', rfl⟩ :=
    exists_runOn Machine.related_sameButBase (alike_self host)
      (fun offset hmem => absurd hmem (hprogram offset)) hmn (rfl : recent = recent)
  unfold placeOn
  rw [run_bind_of_ok hrun, run_bind_of_ok hother]
  dsimp only
  rw [hmn'.location_eq]

/-! ## A frame base that settles -/

theorem prepared_of_runOn {outcome : Except Fault Unit} {m : Machine} {recent last : Option Nat}
    (h : runOn host program { cfa } recent = .ok (outcome, m) last) : Machine.Prepared cfa m m := by
  obtain ⟨_, m', _, _, _, hrun, -, hm', -⟩ :=
    exists_runOn (Machine.related_prepared cfa) (alike_self host) (fun _ _ _ _ hmn => congrArg _ hmn.1)
      (⟨rfl, rfl, rfl⟩ : Machine.Prepared cfa { cfa } { cfa }) (rfl : recent = recent)
  cases h.symm.trans hrun
  exact ⟨rfl, hm'.2⟩

theorem ifAvailable_valueOf (hregisters : ∀ number e, registers number = .error e → e.isUnavailable)
    (otherwise : Location → Fault) {place : Location} (h : place.isSingle) (recent : Option Nat) :
    ∃ base, ifAvailable (valueOf registers otherwise place) recent = .ok base recent := by
  cases place with
  | constant value => exact ⟨some value, rfl⟩
  | memory address => exact ⟨some address, rfl⟩
  | register number =>
    show ∃ base, ifAvailable (liftExcept (registers number)) recent = .ok base recent
    cases hread : registers number with
    | ok value => exact ⟨some value, rfl⟩
    | error e => exact ⟨none, if_pos (hregisters number e hread)⟩
  | invalid => cases h
  | composite pieces => cases h

theorem readyMachine_of_settled {frameBase : Program} {outcome : Except Fault Unit} {m : Machine}
    {recent last : Option Nat}
    (hregisters : ∀ number e, registers number = .error e → e.isUnavailable)
    (hrun : runOn host frameBase { cfa } recent = .ok (outcome, m) last) (hsettled : settled outcome m.location) :
    ∃ base, readyMachine registers host cfa (some frameBase) recent = .ok { cfa, frameBase := base } last := by
  have hbase : ∃ base, ifAvailable (do
      liftExcept outcome
      valueOf registers (fun other => .evaluation (.frameBase other)) m.location) last = .ok base last := by
    cases outcome with
    | ok _ => exact ifAvailable_valueOf hregisters _ hsettled last
    | error e => exact ⟨none, if_pos hsettled⟩
  obtain ⟨base, hbase⟩ := hbase
  refine ⟨base, ?_⟩
  rw [← (prepared_of_runOn hrun).reset_eq base]
  show (runOn host frameBase { cfa } >>= _) recent = _
  rw [run_bind_of_ok hrun]
  dsimp only
  rw [run_bind_of_ok hbase]
  rfl

theorem locate_of_settled {frameBase : Program} {outcome : Except Fault Unit} {m : Machine}
    {recent last : Option Nat}
    (hregisters : ∀ number e, registers number = .error e → e.isUnavailable)
    (hprogram : ∀ offset, .frameBase offset ∉ program)
    (hrun : runOn host frameBase { cfa } recent = .ok (outcome, m) last) (hsettled : settled outcome m.location) :
    locate registers host cfa (some frameBase) program recent = locate registers host cfa none program last := by
  obtain ⟨base, hready⟩ := readyMachine_of_settled hregisters hrun hsettled
  have hplace : (readyMachine registers host cfa (some frameBase) >>= placeOn host program) recent =
      (readyMachine registers host cfa none >>= placeOn host program) last := by
    rw [run_bind_of_ok hready]
    exact congrFun (placeOn_eq hprogram ⟨none, rfl⟩) last
  rw [locate_eq, locate_eq, run_bind, run_bind]
  unfold ifAvailable
  rw [hplace]

/-! ## Programs without entry values -/

theorem indifferent_runOn_plain {target : Target} (entryValue : List UInt8 → Query UInt32)
    (hprogram : ∀ block, .entryValue block ∉ program) (m : Machine) :
    Indifferent R (runOn (Fixed.host registers target entryValue) program m) := by
  have hplain : (Fixed.host registers target entryValue).withoutEntryValues.Alike R (fun _ => True)
      (Fixed.host registers target entryValue).withoutEntryValues := alike_host fun _ => .throw trivial
  have hrun := alike_runOn hplain program m
  unfold runOn Run.program at hrun ⊢
  rwa [Run.words_withoutEntryValues _ none hprogram] at hrun

theorem recent_of_runOn {target : Target} {entryValue : List UInt8 → Query UInt32}
    (hprogram : ∀ block, .entryValue block ∉ program) {m m' : Machine} {outcome : Except Fault Unit}
    {recent last : Option Nat}
    (h : runOn (Fixed.host registers target entryValue) program m recent = .ok (outcome, m') last) :
    last = recent := by
  have hkeeps : Indifferent (fun r _ => r = recent) (runOn (Fixed.host registers target entryValue) program m) :=
    indifferent_runOn_plain entryValue hprogram m
  have hend := hkeeps recent recent rfl
  rw [h] at hend
  exact hend.2

theorem indifferent_locate_plain {target : Target} (entryValue : List UInt8 → Query UInt32)
    (hprogram : ∀ block, .entryValue block ∉ program) :
    Indifferent R (locate registers (Fixed.host registers target entryValue) cfa none program) := by
  refine Alike.bind (indifferent_ifAvailable ?_) fun place => .pure _
  refine Alike.bind (.pure _) fun machine => ?_
  refine (indifferent_runOn_plain entryValue hprogram machine).bind fun run => ?_
  exact (indifferent_result _).bind fun _ => .pure _

end Fixed

/-- The value or the fault of an evaluation; the session that it leaves does not matter. -/
def Evaluation.answer {α : Type} (evaluation : Evaluation α) (s : Session) : Except Fault α :=
  match evaluation s with
  | .ok a _ => .ok a
  | .error e _ => .error e

theorem Indifferent.answer_eq {α : Type} {R : Option Nat → Option Nat → Prop} {q : Query α}
    (h : Indifferent R q) {s t : Session} (hst : R s.recent t.recent) :
    (Evaluation.query q).answer s = (Evaluation.query q).answer t := by
  unfold Evaluation.answer Evaluation.query
  obtain ⟨_, _, _, hs, ht, -⟩ | ⟨_, _, _, hs, ht, -⟩ := (h s.recent t.recent hst).cases
  · rw [hs, ht]
  · rw [hs, ht]

namespace DebugInfo

variable {info : DebugInfo} {target : Target} {cfa : Option UInt32} {frameBase program : Program}
  {outcome : Except Fault Unit} {m : Machine} {s last : Session}

/-! ## First hits -/

theorem indifferent_unitNumberCovering (h : info.FirstEverywhere) (address : UInt32) :
    Indifferent (fun r t => info.IsFirstHit r ∧ info.IsFirstHit t) (info.unitNumberCovering address) := by
  rintro r t ⟨hr, ht⟩
  obtain ⟨r', hrun⟩ := answersFirst_of_isFirstHit h (s := ⟨r, {}⟩) hr address
  obtain ⟨t', hother⟩ := answersFirst_of_isFirstHit h (s := ⟨t, {}⟩) ht address
  have hrkeeps := keeps_unitNumberCovering address r hr
  have htkeeps := keeps_unitNumberCovering address t ht
  dsimp only at hrun hother
  rw [hrun] at hrkeeps ⊢
  rw [hother] at htkeeps ⊢
  exact ⟨rfl, hrkeeps, htkeeps⟩

/-! ## Evaluations -/

theorem isUnavailable_of_register (cache : RegisterCache) (number : UInt32) (e : Fault)
    (h : cache.register number = .error e) : e.isUnavailable := by
  unfold RegisterCache.register RegisterCache.activeFrame RegisterCache.frame at h
  cases hframe : cache.frames[cache.active]? with
  | none =>
    rw [hframe] at h
    cases h
    rfl
  | some frame =>
    rw [hframe] at h
    unfold RegisterFrame.get? at h
    simp only [bind, Except.bind] at h
    split at h <;> cases h
    rfl

/-- What a frame base program leads to in a session, run on its own. -/
abbrev baseRun (info : DebugInfo) (target : Target) (cfa : Option UInt32) (frameBase : Program) :
    Evaluation (Except Fault Unit × Machine) := info.withHost target fun host => runOn host frameBase { cfa }

/-- The host of evaluations with one of the frames active. -/
abbrev fixedHost (info : DebugInfo) (target : Target) (cache : RegisterCache) : Host (Option Nat) :=
  Fixed.host cache.register target (Fixed.entryValueBehind info target cache.frames cache.active)

theorem ran_of_baseRun (h : info.baseRun target cfa frameBase s = .ok (outcome, m) last) :
    last.registers = s.registers ∧
      Fixed.runOn (info.fixedHost target s.registers) frameBase { cfa } s.recent = .ok (outcome, m) last.recent := by
  have hquery : AsQuery s.registers (info.baseRun target cfa frameBase)
      (Fixed.runOn (info.fixedHost target s.registers) frameBase { cfa }) :=
    .registers (asQuery_runOn (hostFixed_hostFor _ (Nat.le_add_left _ _)) frameBase { cfa })
  rw [hquery.run_eq rfl] at h
  exact (run_query_eq_ok_iff.mp h).symm

theorem isFirstHit_of_baseRun (h : info.baseRun target cfa frameBase s = .ok (outcome, m) last)
    (hs : info.IsFirstHit s.recent) : info.IsFirstHit last.recent := by
  have hkeeps : info.QueryKeeps (Fixed.runOn (info.fixedHost target s.registers) frameBase { cfa }) :=
    keeps_of_indifferent fun h => Fixed.alike_runOn (Fixed.alike_host (Fixed.indifferent_entryValue h _ _)) _ _
  have hlast := hkeeps s.recent hs
  rwa [(ran_of_baseRun h).2] at hlast

/--
What becomes of a frame base in the evaluation of a program that does not use it, if on its own it leaves the
last session.
-/
structure BaseUnused (info : DebugInfo) (target : Target) (cfa : Option UInt32) (frameBase program : Program)
    (s last : Session) : Prop where
  /-- The place is the one without a frame base, found in the session that the frame base leaves. -/
  after : info.evaluateLocation target cfa (some frameBase) program s =
    info.evaluateLocation target cfa none program last
  /-- That session differs in the unit found last, if at all. -/
  registers_eq : last.registers = s.registers
  plainBase : (∀ block, .entryValue block ∉ frameBase) → last = s
  plainProgram : (∀ block, .entryValue block ∉ program) →
    (info.evaluateLocation target cfa (some frameBase) program).answer s =
      (info.evaluateLocation target cfa none program).answer s
  firstEverywhere : info.FirstEverywhere → info.IsFirstHit s.recent →
    (info.evaluateLocation target cfa (some frameBase) program).answer s =
      (info.evaluateLocation target cfa none program).answer s

/--
A frame base that settles leaves nothing on the machine for a program that does not use it. It only leaves the
unit that its entry values found last, so the place is the same if either program has no entry values, and also
where that unit does not change answers.
-/
theorem unusedFrameBase (hprogram : ∀ offset, .frameBase offset ∉ program)
    (hrun : info.baseRun target cfa frameBase s = .ok (outcome, m) last) (hsettled : settled outcome m.location) :
    info.BaseUnused target cfa frameBase program s last := by
  obtain ⟨hregisters, hbase⟩ := ran_of_baseRun hrun
  have hafter : info.evaluateLocation target cfa (some frameBase) program s =
      info.evaluateLocation target cfa none program last := by
    have hlocate := Fixed.locate_of_settled (isUnavailable_of_register s.registers) hprogram hbase hsettled
    rw [(asQuery_evaluateLocation cfa _ program).run_eq rfl, (asQuery_evaluateLocation cfa none program).run_eq rfl]
    unfold Evaluation.query Fixed.evaluateLocation
    rw [hregisters, hlocate]
  have hanswer {R : Option Nat → Option Nat → Prop} (hlast : R last.recent s.recent)
      (h : Indifferent R (Fixed.evaluateLocation info target s.registers cfa none program)) :
      (info.evaluateLocation target cfa (some frameBase) program).answer s =
        (info.evaluateLocation target cfa none program).answer s := by
    have hend := h.answer_eq hlast
    unfold Evaluation.answer at hend ⊢
    rwa [hafter, (asQuery_evaluateLocation cfa none program).run_eq hregisters,
      (asQuery_evaluateLocation cfa none program).run_eq rfl]
  refine ⟨hafter, hregisters, fun hplain => ?_, fun hplain => ?_, fun hfirst hs => ?_⟩
  · have hrecent : last.recent = s.recent := Fixed.recent_of_runOn hplain hbase
    obtain ⟨recent, registers⟩ := last
    cases hrecent
    cases hregisters
    rfl
  · exact hanswer (R := fun _ _ => True) trivial (Fixed.indifferent_locate_plain _ hplain)
  · exact hanswer (R := fun r t => info.IsFirstHit r ∧ info.IsFirstHit t) ⟨isFirstHit_of_baseRun hrun hs, hs⟩
      (Fixed.indifferent_evaluateLocation (indifferent_unitNumberCovering hfirst) _ _ _)

/-- The function that passes on its argument, and a unit around it that knows other arguments for the same calls. -/
def otherArguments : Sections where
  info := passedOn.info ++ #[51, 0, 0, 0, 4, 0, 0, 0, 0, 0, 4, 1, 0, 1, 0, 0, 0, 3, 0, 0,
    2, 0, 1, 0, 0, 0, 3, 0, 0, 3, 0x10, 1, 0, 0, 4, 1, 0x50, 2, 0x32, 0x9f, 0,
    3, 0x10, 3, 0, 0, 4, 1, 0x50, 2, 0x33, 0x9f, 0, 0, 0]
  abbreviations := passedOn.abbreviations

/-- A fresh index, and three frames; the outermost one is in the second unit only. -/
def calledFromOther : Session :=
  { registers := { frames := [0x104, 0x110, 0x310].map (RegisterFrame.put (Vector.replicate 16 0) 15) } }

/-- The frame base is where the argument points to. -/
def argumentBase : Program := [.entryValue [0x50]]

theorem settled_otherArguments : (build otherArguments).toOption.map (fun info =>
    match info.baseRun stoppedTarget none argumentBase calledFromOther with
    | .ok (outcome, m) last => (settled outcome m.location, last.recent)
    | .error _ _ => (false, none)) = some (true, some 1) := by
  decide +kernel

theorem baseRun_otherArguments : ∃ info outcome m last, build otherArguments = .ok info ∧
    info.baseRun stoppedTarget none argumentBase calledFromOther = .ok (outcome, m) last ∧
      settled outcome m.location ∧ last.recent = some 1 := by
  obtain ⟨info, hbuild, hrun⟩ := Option.map_eq_some_iff.mp settled_otherArguments
  split at hrun
  case h_1 outcome m last hbase =>
    obtain ⟨hsettled, hrecent⟩ := Prod.mk.inj hrun
    exact ⟨info, outcome, m, last, ok_of_toOption hbuild, hbase, hsettled, hrecent⟩
  case h_2 => cases hrun

theorem frameBase_notMem_argument (offset : Int32) : .frameBase offset ∉ passedOnArgument.program := by
  simp [passedOnArgument]

theorem unusedFrameBase_otherArguments : ∃ info last, build otherArguments = .ok info ∧ last.recent = some 1 ∧
    info.BaseUnused stoppedTarget none argumentBase passedOnArgument.program calledFromOther last := by
  obtain ⟨info, outcome, m, last, hbuild, hbase, hsettled, hrecent⟩ := baseRun_otherArguments
  exact ⟨info, last, hbuild, hrecent, unusedFrameBase frameBase_notMem_argument hbase hsettled⟩

/-- The value that a program gives, if it gives one. -/
def givenConstant? : Except Fault Location → Option UInt32
  | .ok (.constant value) => some value
  | _ => none

theorem constants_otherArguments : (build otherArguments).toOption.map (fun info =>
    (givenConstant? ((info.evaluateLocation stoppedTarget none (some argumentBase) passedOnArgument.program).answer
        calledFromOther),
      givenConstant? ((info.evaluateLocation stoppedTarget none none passedOnArgument.program).answer
        calledFromOther))) = some (some 2, some 3) := by
  decide +kernel

/-- With the frame base the argument is the one that the second unit knows, without it that of the first. -/
theorem not_sameWithoutBase_otherArguments : ∃ info outcome m last, build otherArguments = .ok info ∧
    (∀ offset, .frameBase offset ∉ passedOnArgument.program) ∧
      info.baseRun stoppedTarget none argumentBase calledFromOther = .ok (outcome, m) last ∧
        settled outcome m.location ∧
          (info.evaluateLocation stoppedTarget none (some argumentBase) passedOnArgument.program).answer
            calledFromOther ≠
            (info.evaluateLocation stoppedTarget none none passedOnArgument.program).answer calledFromOther := by
  obtain ⟨info, outcome, m, last, hbuild, hbase, hsettled, -⟩ := baseRun_otherArguments
  refine ⟨info, outcome, m, last, hbuild, frameBase_notMem_argument, hbase, hsettled, fun hsame => ?_⟩
  have hconstants := constants_otherArguments
  rw [hbuild] at hconstants
  simp only [Except.toOption, Option.map_some, hsame, Option.some.injEq, Prod.mk.injEq] at hconstants
  obtain ⟨htwo, hthree⟩ := hconstants
  cases htwo.symm.trans hthree

end DebugInfo

end FirmwareDebug
