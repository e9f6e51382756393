import FirmwareDebug.Backtrace
import FirmwareDebug.Proofs.Keeps

/-!
# Where frames are looked up

Whatever a backtrace says of a frame comes from one address. `LookedUp` is a walk by any rule for that
address, and a walk is one by the rule of callers, whose program counters are return addresses.
-/

namespace FirmwareDebug

open Evaluation

@[simp]
theorem run_query_eq_ok_iff {α : Type} {q : Query α} {s s' : Session} {a : α} :
    Evaluation.query q s = .ok a s' ↔ q s.recent = .ok a s'.recent ∧ s'.registers = s.registers := by
  unfold Evaluation.query
  cases hq : q s.recent with
  | error e recent => exact iff_of_false nofun nofun
  | ok b recent =>
    cases s'
    simp only [EStateM.Result.ok.injEq, Session.mk.injEq]
    grind

/-- The address that a frame is looked up at. -/
abbrev LookupRule := (number : Nat) → FrameStatus → RegisterFrame → UInt32

/-- The rule of callers: the status of a frame does not matter. -/
def LookupRule.returning : LookupRule := fun number _ frame => frame.lookupAddress number

namespace DebugInfo

variable {info : DebugInfo} {target : Target} {number limit : Nat} {status : FrameStatus} {frame : RegisterFrame}
  {frames : List BacktraceFrame}

/-- What is known about the code at an address, told of a frame. -/
def describeAt (info : DebugInfo) (address : UInt32) (number : Nat) (frame : RegisterFrame) (status : FrameStatus) :
    Query BacktraceFrame := do
  let context ← info.contextAt address
  let function ← match context.function? with
    | some entry => liftExcept (info.nameOf entry.offset)
    | none => pure none
  let inlined ← liftExcept (context.inlined.mapM fun entry => do
    return (← info.nameOf entry.offset).getD "??")
  let sourceLine ← info.sourceLineOf address
  return { number, pc := frame.pc, sp := frame.sp, function, inlined, sourceLine, status }

/-- The registers of a frame's caller by what is known about the code at an address. -/
def callerAt (info : DebugInfo) (target : Target) (address : UInt32) (frame : RegisterFrame) :
    Except Fault (Option (RegisterFrame × FrameStatus)) := do
  let rules ← info.frames.programAt address
  let status := if frame.isExceptionReturn then .exception else .complete
  match callerByRules frame target rules with
  | .ok caller => return caller.map fun caller => (caller, status)
  | .error e => if e.isUnavailable then return none else throw e

theorem describeFrame_eq : info.describeFrame number frame status =
    info.describeAt (LookupRule.returning number status frame) number frame status := rfl

theorem callerOf_eq (status : FrameStatus) :
    info.callerOf target number frame = info.callerAt target (LookupRule.returning number status frame) frame := rfl

/-- The frames of a walk from one on, with their registers, where a rule gives the address of each. -/
inductive LookedUp (info : DebugInfo) (target : Target) (rule : LookupRule) :
    Option Nat → Nat → FrameStatus → List BacktraceFrame → List RegisterFrame → Prop
  | last {recent next number status f frame}
      (described : info.describeAt (rule number status frame) number frame status recent = .ok f next) :
      LookedUp info target rule recent number status [f] [frame]
  | next {recent next number status callerStatus f frame caller frames callers}
      (described : info.describeAt (rule number status frame) number frame status recent = .ok f next)
      (unwound : info.callerAt target (rule number status frame) frame = .ok (some (caller, callerStatus)))
      (on : goesOn frame caller)
      (rest : LookedUp info target rule next (number + 1) callerStatus frames (caller :: callers)) :
      LookedUp info target rule recent number status (f :: frames) (frame :: caller :: callers)

theorem lookedUp_of_walk {budget : Nat} {s s' : Session}
    (h : info.walk target (budget + 1) number frame status s = .ok frames s') :
    ∃ callers, s'.registers = { s.registers with frames := s.registers.frames ++ callers } ∧
      frames.length ≤ budget + 1 ∧
      info.LookedUp target .returning s.recent number status frames (frame :: callers) := by
  induction budget generalizing number frame status frames s with
  | zero =>
    unfold walk at h
    simp only [run_bind_eq_ok_iff, run_query_eq_ok_iff] at h
    obtain ⟨f, next, ⟨hf, hregisters⟩, h⟩ := h
    rw [describeFrame_eq] at hf
    cases h
    exact ⟨[], by rw [hregisters, List.append_nil], Nat.le_refl _, .last hf⟩
  | succ budget ih =>
    unfold walk at h
    simp only [run_bind_eq_ok_iff, run_query_eq_ok_iff] at h
    obtain ⟨f, next, ⟨hf, hregisters⟩, h⟩ := h
    rw [describeFrame_eq] at hf
    have hlast : ∃ callers, next.registers = { s.registers with frames := s.registers.frames ++ callers } ∧
        [f].length ≤ budget + 1 + 1 ∧
        info.LookedUp target .returning s.recent number status [f] (frame :: callers) :=
      ⟨[], by rw [hregisters, List.append_nil], by simp, .last hf⟩
    simp only [if_neg (Nat.succ_ne_zero budget), run_bind_eq_ok_iff, run_liftExcept_eq_ok_iff] at h
    obtain ⟨unwound, _, ⟨hunwound, rfl⟩, h⟩ := h
    rw [callerOf_eq status] at hunwound
    cases unwound with
    | none =>
      cases h
      exact hlast
    | some unwound =>
      dsimp only at h
      split at h
      case isFalse =>
        cases h
        exact hlast
      case isTrue hon =>
        simp only [run_bind_eq_ok_iff, run_modify_eq_ok_iff, run_pure_eq_ok_iff] at h
        obtain ⟨-, _, rfl, rest, _, hrest, rfl, rfl⟩ := h
        obtain ⟨callers, hcallers, hlength, hwalked⟩ := ih hrest
        refine ⟨unwound.1 :: callers, ?_, Nat.succ_le_succ hlength, .next hf hunwound hon hwalked⟩
        rw [hcallers]
        simp [RegisterCache.push, hregisters]

theorem ran_of_backtrace {s s' : Session} (h : info.backtrace target limit s = .ok frames s') :
    ∃ registers callers, target.readRegisters = .ok registers ∧
      s'.registers = { frames := registers :: callers } ∧ frames.length ≤ max 1 limit ∧
      info.LookedUp target .returning s.recent 0 .current frames (registers :: callers) := by
  simp only [backtrace, run_bind_eq_ok_iff, run_modify_eq_ok_iff, run_liftExcept_eq_ok_iff] at h
  obtain ⟨-, _, rfl, registers, _, ⟨hregisters, rfl⟩, -, _, rfl, h⟩ := h
  obtain ⟨budget, hbudget⟩ : ∃ budget, max limit 1 = budget + 1 := ⟨max limit 1 - 1, by omega⟩
  rw [hbudget] at h
  obtain ⟨callers, hcallers, hlength, hwalked⟩ := lookedUp_of_walk h
  exact ⟨registers, callers, hregisters, hcallers, by omega, hwalked⟩

end DebugInfo

end FirmwareDebug
