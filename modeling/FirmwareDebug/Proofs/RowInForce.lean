import FirmwareDebug.Proofs.CallFrame.RowStart
import FirmwareDebug.Proofs.Interrupted

/-!
# The row in force at the call

A return address is where the code behind a call begins. Rules are looked up one byte before it, at the
call, but the row of a frame is the one in force at the return address: where a row starts between the
call and what is behind it, the caller is unwound with the rules of code that does not run yet.
-/

namespace FirmwareDebug

/--
The address that a frame's row is for. It may depend on whether call frame information led to the frame,
which makes its program counter a return address.
-/
abbrev RowRule := (byRules : Bool) → (number : Nat) → RegisterFrame → UInt32

/-- The row in force where the frame stopped. -/
def RowRule.stopped : RowRule := fun _ _ frame => frame.pc

/-- The row in force at the call, for frames that wait for one to return. -/
def RowRule.calling : RowRule := fun byRules number frame =>
  if byRules then frame.lookupAddress number else frame.pc

namespace DebugInfo

open Evaluation CallFrame

/-- The registers of a frame's caller by the rules that are there for its code, by the row for an address. -/
def callerByRowFor (frame : RegisterFrame) (target : Target) (address : UInt32) :
    Option (Program × UInt32) → Except Fault (Option RegisterFrame)
  | some (program, start) => do
    frame.callerByRow target (← unwindRowAt program start address (frameHost frame target))
  | none => frame.callerByException target

/-- As `callerOf`, by the row for an address of its own. -/
def callerOfBy (info : DebugInfo) (target : Target) (address : UInt32) (number : Nat) (frame : RegisterFrame) :
    Except Fault (Option (RegisterFrame × FrameStatus)) := do
  let rules ← info.frames.programAt (frame.lookupAddress number)
  let status := if frame.isExceptionReturn then .exception else .complete
  match callerByRowFor frame target address rules with
  | .ok caller => return caller.map fun caller => (caller, status)
  | .error e => if e.isUnavailable then return none else throw e

/-- Whether there is call frame information for a frame's code. -/
def hasRules (info : DebugInfo) (number : Nat) (frame : RegisterFrame) : Bool :=
  match info.frames.programAt (frame.lookupAddress number) with
  | .ok (some _) => true
  | _ => false

/-- As `walk`, by rows for the addresses of a rule. -/
def walkBy (info : DebugInfo) (target : Target) (rule : RowRule) : (budget : Nat) → (byRules : Bool) →
    (number : Nat) → RegisterFrame → FrameStatus → Evaluation (List BacktraceFrame)
  | 0, _, _, _, _ => return []
  | budget + 1, byRules, number, frame, status => do
    let described ← query (info.describeFrame number frame status)
    if budget = 0 then return [described]
    match ← liftExcept (info.callerOfBy target (rule byRules number frame) number frame) with
    | none => return [described]
    | some (caller, callerStatus) =>
      if goesOn frame caller then
        modify fun s => { s with registers := s.registers.push caller }
        return described ::
          (← info.walkBy target rule budget (info.hasRules number frame) (number + 1) caller callerStatus)
      else return [described]

/-- As `backtrace`, by rows for the addresses of a rule. -/
def backtraceBy (info : DebugInfo) (target : Target) (rule : RowRule) (limit : Nat) :
    Evaluation (List BacktraceFrame) := do
  modify fun s => { s with registers := {} }
  let frame ← liftExcept target.readRegisters
  modify fun s => { s with registers := .ofFrame frame }
  info.walkBy target rule (max limit 1) false 0 frame .current

/-- The frames of the stack, and whether call frame information led to them. -/
inductive Reached (info : DebugInfo) (target : Target) : (byRules : Bool) → (number : Nat) → RegisterFrame → Prop
  | first {frame} (stopped : target.readRegisters = .ok frame) : Reached info target false 0 frame
  | next {byRules number frame caller status} (reached : Reached info target byRules number frame)
      (unwound : info.callerOf target number frame = .ok (some (caller, status))) (on : goesOn frame caller) :
      Reached info target (info.hasRules number frame) (number + 1) caller

/-- A row starts at the program counter of a frame, among the rules for the address before. -/
def RowStartsAt (info : DebugInfo) (frame : RegisterFrame) : Prop :=
  ∃ words start, info.frames.programAt (frame.pc - 1) = .ok (some (words.map .frame, start)) ∧
    frame.pc ∈ rowStarts { location := start, target := frame.pc } words

variable {info : DebugInfo} {target : Target} {byRules : Bool} {number limit : Nat} {status : FrameStatus}
  {frame caller : RegisterFrame}

/-! ## Rows for the program counter -/

@[simp]
theorem callerOfBy_pc : info.callerOfBy target frame.pc number frame = info.callerOf target number frame := rfl

theorem walkBy_succ {rule : RowRule} {budget : Nat}
    (hcaller : budget ≠ 0 →
      info.callerOfBy target (rule byRules number frame) number frame = info.callerOf target number frame)
    (hrest : ∀ caller callerStatus, info.callerOf target number frame = .ok (some (caller, callerStatus)) →
      goesOn frame caller → info.walkBy target rule budget (info.hasRules number frame) (number + 1) caller callerStatus =
        info.walk target budget (number + 1) caller callerStatus) :
    info.walkBy target rule (budget + 1) byRules number frame status =
      info.walk target (budget + 1) number frame status := by
  unfold walkBy walk
  congr 1
  funext described
  by_cases hbudget : budget = 0
  · rw [if_pos hbudget, if_pos hbudget]
  rw [if_neg hbudget, if_neg hbudget, hcaller hbudget]
  cases hfound : info.callerOf target number frame with
  | error e => rfl
  | ok found =>
    cases found with
    | none => rfl
    | some found =>
      obtain ⟨caller, callerStatus⟩ := found
      change (if goesOn frame caller then _ else _) = if goesOn frame caller then _ else _
      by_cases hon : goesOn frame caller
      · rw [if_pos hon, if_pos hon, hrest caller callerStatus hfound hon]
      · rw [if_neg hon, if_neg hon]

@[simp]
theorem walkBy_stopped {budget : Nat} : info.walkBy target .stopped budget byRules number frame status =
    info.walk target budget number frame status := by
  induction budget generalizing byRules number frame status with
  | zero => rfl
  | succ budget ih => exact walkBy_succ (fun _ => callerOfBy_pc) fun _ _ _ _ => ih

@[simp]
theorem backtraceBy_stopped : info.backtraceBy target .stopped limit = info.backtrace target limit := by
  unfold backtraceBy backtrace
  simp only [walkBy_stopped]

/-! ## Rows for the call -/

namespace Reached

theorem number_ne_zero (h : info.Reached target byRules number frame) (hrules : byRules) : number ≠ 0 := by
  cases h with
  | first stopped => cases hrules
  | next reached unwound on => exact Nat.succ_ne_zero _

theorem pc_ne_zero (h : info.Reached target byRules number frame) (hrules : byRules) : frame.pc ≠ 0 := by
  cases h with
  | first stopped => cases hrules
  | next reached unwound on => exact (goesOn_iff.mp on).1

theorem stopped (h : info.Reached target byRules 0 frame) : target.readRegisters = .ok frame := by
  cases h
  assumption

theorem unwound (h : info.Reached target byRules (number + 1) caller) : ∃ byRules frame status,
    info.Reached target byRules number frame ∧
      info.callerOf target number frame = .ok (some (caller, status)) := by
  cases h with
  | next reached unwound on => exact ⟨_, _, _, reached, unwound⟩

theorem calling_eq (h : info.Reached target byRules number frame) :
    RowRule.calling byRules number frame = if byRules ∧ ¬ frame.isExceptionReturn then frame.pc - 1 else frame.pc := by
  unfold RowRule.calling
  split
  case isFalse hrules => rw [if_neg fun hboth => hrules hboth.1]
  case isTrue hrules =>
    by_cases hreturn : frame.isExceptionReturn
    · rw [RegisterFrame.lookupAddress, if_pos hreturn, if_neg fun hboth => hboth.2 hreturn]
    · rw [lookupAddress_of_ne_zero (h.number_ne_zero hrules) hreturn, if_pos ⟨hrules, hreturn⟩]

end Reached

theorem callerOfBy_congr {address other : UInt32}
    (h : ∀ rules, info.frames.programAt (frame.lookupAddress number) = .ok rules →
      callerByRowFor frame target address rules = callerByRowFor frame target other rules) :
    info.callerOfBy target address number frame = info.callerOfBy target other number frame := by
  unfold callerOfBy
  cases hrules : info.frames.programAt (frame.lookupAddress number) with
  | error e => rfl
  | ok rules => simp only [bind, Except.bind, h rules hrules]

theorem callerOfBy_before (hnumber : number ≠ 0) (hzero : frame.pc ≠ 0) (hreturn : ¬ frame.isExceptionReturn)
    (hstarts : ¬ info.RowStartsAt frame) :
    info.callerOfBy target (frame.pc - 1) number frame = info.callerOf target number frame := by
  rw [← callerOfBy_pc]
  refine callerOfBy_congr fun rules hrules => ?_
  rw [lookupAddress_of_ne_zero hnumber hreturn] at hrules
  cases rules with
  | none => rfl
  | some rules =>
    obtain ⟨program, start⟩ := rules
    obtain ⟨_, _, initial, own, -, -, -, -, rfl, rfl⟩ := programAt_eq hrules
    have hnot := fun hmem => hstarts ⟨_, _, hrules, hmem⟩
    rw [callerByRowFor, callerByRowFor, unwindRowAt_before hzero hnot]

theorem rowStartsAt_iff (hzero : frame.pc ≠ 0) : info.RowStartsAt frame ↔
    ∃ words start, info.frames.programAt (frame.pc - 1) = .ok (some (words.map .frame, start)) ∧
      carried { location := start, target := frame.pc } words ≠
        carried { location := start, target := frame.pc - 1 } words :=
  exists_congr fun _ => exists_congr fun start => and_congr_right fun _ =>
    @mem_rowStarts_iff { location := start, target := frame.pc } _ hzero

theorem walkBy_calling {budget : Nat} (h : info.Reached target byRules number frame)
    (hstarts : ∀ i frame, i + 1 < number + budget → info.Reached target true i frame → ¬ frame.isExceptionReturn →
      ¬ info.RowStartsAt frame) :
    info.walkBy target .calling budget byRules number frame status = info.walk target budget number frame status := by
  induction budget generalizing byRules number frame status with
  | zero => rfl
  | succ budget ih =>
    refine walkBy_succ (fun hbudget => ?_) fun caller callerStatus hcaller hon => ?_
    · rw [h.calling_eq]
      split
      case isFalse => exact callerOfBy_pc
      case isTrue hboth =>
        obtain ⟨hrules, hreturn⟩ := hboth
        refine callerOfBy_before (h.number_ne_zero hrules) (h.pc_ne_zero hrules) hreturn ?_
        exact hstarts number frame (by omega) (hrules ▸ h) hreturn
    · refine ih (.next h hcaller hon) fun i frame hi => hstarts i frame ?_
      rwa [Nat.add_right_comm] at hi

theorem backtraceBy_calling (hstarts : ∀ i frame, i + 1 < max limit 1 → info.Reached target true i frame →
      ¬ frame.isExceptionReturn → ¬ info.RowStartsAt frame) :
    info.backtraceBy target .calling limit = info.backtrace target limit := by
  unfold backtraceBy backtrace
  cases hfirst : target.readRegisters with
  | error e => rfl
  | ok frame =>
    have hwalk : info.walkBy target .calling (max limit 1) false 0 frame .current =
        info.walk target (max limit 1) 0 frame .current :=
      walkBy_calling (.first hfirst) (by simpa only [Nat.zero_add] using hstarts)
    have hread : (liftExcept (.ok frame : Except Fault RegisterFrame) : Evaluation RegisterFrame) = pure frame := rfl
    simp only [hread, pure_bind, hwalk]

theorem reached_of_backtrace {s s' : Session} {frames : List BacktraceFrame}
    (h : info.backtrace target limit s = .ok frames s') {i : Nat} (hframe : s'.registers.frames[i]? = some frame) :
    ∃ byRules, info.Reached target byRules i frame := by
  obtain ⟨registers, callers, hregisters, hcallers, -, hlooked⟩ := ran_of_backtrace h
  rw [hcallers] at hframe
  induction i generalizing frame with
  | zero =>
    cases hframe
    exact ⟨false, .first hregisters⟩
  | succ i ih =>
    have hlt := (List.getElem?_eq_some_iff.mp hframe).choose
    have hbefore := List.getElem?_eq_getElem (Nat.lt_of_succ_lt hlt)
    obtain ⟨_, hreached⟩ := ih hbefore
    obtain ⟨hon, f, -, hunwound⟩ := hlooked.walked.unwound hbefore hframe
    rw [Nat.zero_add] at hunwound
    exact ⟨_, .next hreached hunwound hon⟩

/-! ## Both walks -/

/--
A backtrace unwinds every frame by the row in force at its program counter. For return addresses this is
not the row in force at the call, but that of the code behind it, if a row starts there: just then the
program of the rules does more on the way to the return address than on the way to the address before.
Without such rows the backtrace is the one by the rows in force at the calls.
-/
theorem backtrace_rows (info : DebugInfo) (target : Target) (limit : Nat) (s : Session) :
    info.backtrace target limit s = info.backtraceBy target .stopped limit s ∧
    (∀ byRules number frame, info.Reached target byRules number frame →
      RowRule.calling byRules number frame =
        if byRules ∧ ¬ frame.isExceptionReturn then frame.pc - 1 else frame.pc) ∧
    (∀ number frame, info.Reached target true number frame → (info.RowStartsAt frame ↔
      ∃ words start, info.frames.programAt (frame.pc - 1) = .ok (some (words.map .frame, start)) ∧
        carried { location := start, target := frame.pc } words ≠
          carried { location := start, target := frame.pc - 1 } words)) ∧
    ((∀ number frame, number + 1 < max limit 1 → info.Reached target true number frame →
      ¬ frame.isExceptionReturn → ¬ info.RowStartsAt frame) →
        info.backtrace target limit s = info.backtraceBy target .calling limit s) := by
  refine ⟨by rw [backtraceBy_stopped], fun _ _ _ h => h.calling_eq, fun _ _ h => ?_, fun hstarts => ?_⟩
  · exact rowStartsAt_iff (h.pc_ne_zero rfl)
  · rw [backtraceBy_calling hstarts]

/--
Code at `0x100` that keeps its return address below its frame address, eight bytes up the stack. From
`0x120` on, behind a call that does not return, nothing is on the stack.
-/
def noReturn : Sections where
  frame :=
    #[16, 0, 0, 0, 0xff, 0xff, 0xff, 0xff, 1, 0, 2, 0x7c, 14, 0x0c, 13, 8, 0x8e, 1, 0, 0,
      20, 0, 0, 0, 0, 0, 0, 0, 0, 1, 0, 0, 0x40, 0, 0, 0, 0x50, 14, 0, 8, 14, 0, 0, 0]

/-- Stopped at `0x104`. The caller goes on at `0x100 + place`, and the caller's caller at `0x130`. -/
def waiting (place : UInt8) : Target := Snapshot.target
  { registers := deadEndFrame 0x2000 0 0x104
    images := [⟨.ram, 0x2000, #[0, 0, 0, 0, place + 1, 1, 0, 0, 0, 0, 0, 0, 0x31, 1, 0, 0]⟩] }

def noReturnWords : List FrameWord :=
  [.returnAddressRegister 14, .defCfa 13 8, .offset 14 (-4), .initialEnd, .advance 0x20, .defCfaOffset 0,
    .sameValue 14]

theorem steps_noReturn : (build noReturn).toOption.map (fun info =>
    ((info.callerOf (waiting 0x18) 0 (deadEndFrame 0x2000 0 0x104)).toOption.join,
      info.hasRules 0 (deadEndFrame 0x2000 0 0x104), (info.frames.programAt 0x117).toOption.join)) =
      some (some (deadEndFrame 0x2008 0x119 0x118, .complete), true, some (noReturnWords.map .frame, 0x100)) := by
  decide +kernel

theorem rows_noReturn : ∃ info, build noReturn = .ok info ∧
    info.Reached (waiting 0x18) true 1 (deadEndFrame 0x2008 0x119 0x118) ∧
    info.backtrace (waiting 0x18) 3 {} = info.backtraceBy (waiting 0x18) .calling 3 {} := by
  obtain ⟨info, hinfo, hsteps⟩ := Option.map_eq_some_iff.mp steps_noReturn
  simp only [Prod.mk.injEq] at hsteps
  obtain ⟨hcaller, hrules, hprogram⟩ := hsteps
  have hcaller := ok_some_of_toOption hcaller
  have hfirst : (waiting 0x18).readRegisters = .ok (deadEndFrame 0x2000 0 0x104) := rfl
  refine ⟨info, ok_of_toOption hinfo, hrules ▸ .next (.first hfirst) hcaller rfl,
    (backtrace_rows info (waiting 0x18) 3 {}).2.2.2 fun number frame hlt hreached hreturn hstarts => ?_⟩
  obtain rfl : number = 1 := by
    have := hreached.number_ne_zero rfl
    omega
  obtain ⟨_, before, _, hbefore, hunwound⟩ := hreached.unwound
  cases hfirst.symm.trans hbefore.stopped
  cases hcaller.symm.trans hunwound
  obtain ⟨words, start, hwords, hmem⟩ := hstarts
  have hsame := (ok_some_of_toOption hprogram).symm.trans hwords
  simp only [Except.ok.injEq, Option.some.injEq, Prod.mk.injEq] at hsame
  obtain ⟨hsame, rfl⟩ := hsame
  obtain rfl := List.map_injective_iff.mpr (fun _ _ => Word.frame.inj) hsame
  exact absurd hmem (by decide)

def countersOf : EStateM.Result Fault Session (List BacktraceFrame) → Option (List UInt32)
  | .ok frames _ => some (frames.map BacktraceFrame.pc)
  | .error _ _ => none

theorem counters_noReturn : (build noReturn).toOption.map (fun info =>
    [countersOf (info.backtrace (waiting 0x20) 3 {}), countersOf (info.backtraceBy (waiting 0x20) .calling 3 {})]) =
      some [some [0x104, 0x120], some [0x104, 0x120, 0x130]] := by
  decide +kernel

/-- The outer call is lost, since the inner one is unwound by the rules of what is behind it. -/
theorem not_calling_noReturn : ∃ info, build noReturn = .ok info ∧
    info.backtrace (waiting 0x20) 3 {} ≠ info.backtraceBy (waiting 0x20) .calling 3 {} := by
  obtain ⟨info, hinfo, hcounters⟩ := Option.map_eq_some_iff.mp counters_noReturn
  refine ⟨info, ok_of_toOption hinfo, fun hsame => ?_⟩
  simp only [hsame, List.cons.injEq, and_true] at hcounters
  cases hcounters.1.symm.trans hcounters.2

end DebugInfo

end FirmwareDebug
