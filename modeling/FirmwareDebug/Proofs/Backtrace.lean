import FirmwareDebug.Proofs.Lookup

/-!
# Backtraces and the registers they keep

A walk makes two rows: what is told of the frames, and their registers. Each step adds the caller that
unwinding the last frame gave to both, or ends the walk.
-/

namespace FirmwareDebug

open Evaluation

/-- What is told of a frame fits its number, its status and its registers. -/
structure BacktraceFrame.Tells (f : BacktraceFrame) (number : Nat) (status : FrameStatus)
    (registers : RegisterFrame) : Prop where
  number_eq : f.number = number
  status_eq : f.status = status
  pc_eq : f.pc = registers.pc
  sp_eq : f.sp = registers.sp

namespace DebugInfo

variable {info : DebugInfo} {target : Target} {number limit : Nat} {status : FrameStatus}
  {frame caller : RegisterFrame} {frames : List BacktraceFrame} {stack : List RegisterFrame}

/-- Call frame information gives a caller for a frame, and computes a frame address on the way. -/
inductive Unwinds (info : DebugInfo) (target : Target) (number : Nat) (frame : RegisterFrame) :
    (caller : RegisterFrame) → (cfa : UInt32) → Prop
  | byRow {program : Program} {start base : UInt32} {row : UnwindRow} {rule : CfaRule} {caller : RegisterFrame}
      (described : info.frames.programAt (frame.lookupAddress number) = .ok (some (program, start)))
      (hrow : unwindRowAt program start frame.pc (frameHost frame target) = .ok row)
      (hrule : row.cfa = some rule) (hbase : frame.get? rule.register = .ok base)
      (hcaller : frame.callerByRow target row = .ok (some caller)) :
      Unwinds info target number frame caller (base + rule.offset.toUInt32)

/-- The frames of a walk from one on, with their registers. -/
inductive Walked (info : DebugInfo) (target : Target) :
    Nat → FrameStatus → List BacktraceFrame → List RegisterFrame → Prop
  | last {number status f frame} (tells : f.Tells number status frame) :
      Walked info target number status [f] [frame]
  | next {number status callerStatus f frame caller frames callers} (tells : f.Tells number status frame)
      (unwound : info.callerOf target number frame = .ok (some (caller, callerStatus)))
      (on : goesOn frame caller)
      (rest : Walked info target (number + 1) callerStatus frames (caller :: callers)) :
      Walked info target number status (f :: frames) (frame :: caller :: callers)

/-! ## One step -/

theorem tells_of_describeAt {f : BacktraceFrame} {address : UInt32} {recent last : Option Nat}
    (h : info.describeAt address number frame status recent = .ok f last) : f.Tells number status frame := by
  have hend (function : Option String) {inlined : Except Fault (List String)}
      {line : Query (Option SourceLine)} {recent : Option Nat}
      (h : (do
        let inlined ← liftExcept inlined
        let sourceLine ← line
        return { number, pc := frame.pc, sp := frame.sp, function, inlined, sourceLine, status } :
          Query BacktraceFrame) recent = .ok f last) : f.Tells number status frame := by
    simp only [run_bind_eq_ok_iff, run_pure_eq_ok_iff] at h
    obtain ⟨inlined, _, -, sourceLine, _, -, rfl, -⟩ := h
    exact ⟨rfl, rfl, rfl, rfl⟩
  obtain ⟨context, _, -, h⟩ := ran_of_bind h
  cases hfunction : context.function? with
  | none =>
    simp only [hfunction] at h
    obtain ⟨function, _, -, h⟩ := ran_of_bind h
    exact hend function h
  | some entry =>
    simp only [hfunction] at h
    obtain ⟨function, _, -, h⟩ := ran_of_bind h
    exact hend function h

theorem unwinds_of_callerOf {rules : Program × UInt32}
    (hrules : info.frames.programAt (frame.lookupAddress number) = .ok (some rules))
    (h : info.callerOf target number frame = .ok (some (caller, status))) :
    info.Unwinds target number frame caller caller.sp := by
  obtain ⟨program, start⟩ := rules
  unfold callerOf at h
  rw [hrules] at h
  obtain ⟨_, hsome, h⟩ := ok_of_bind h
  cases hsome
  have hcaller : frame.callerByProgram target program start = .ok (some caller) := by
    dsimp only [callerByRules] at h
    split at h
    case h_1 found hfound =>
      rw [hfound]
      cases found with
      | none => cases h
      | some found =>
        cases h
        rfl
    case h_2 => split at h <;> cases h
  obtain ⟨row, hrow, hcaller⟩ := ok_of_bind hcaller
  have hbyRow := hcaller
  unfold RegisterFrame.callerByRow at hcaller
  split at hcaller
  case h_1 => cases hcaller
  case h_2 rule hrule =>
    split at hcaller
    · cases hcaller
    · simp only [bind_eq_ok_iff, pure_eq_ok_iff, Option.some.injEq] at hcaller
      obtain ⟨base, hbase, recovered, -, returnAddress, -, hcaller⟩ := hcaller
      have hsp : caller.sp = base + rule.offset.toUInt32 := by
        rw [← hcaller, RegisterFrame.sp, RegisterFrame.get_put, if_neg (by decide), RegisterFrame.get_put, if_pos rfl]
      rw [hsp]
      exact .byRow hrules hrow hrule hbase hbyRow

/-! ## The walk -/

theorem LookedUp.walked {recent : Option Nat}
    (h : info.LookedUp target .returning recent number status frames stack) :
    info.Walked target number status frames stack := by
  induction h with
  | last described => exact .last (tells_of_describeAt described)
  | next described unwound on rest ih => exact .next (tells_of_describeAt described) unwound on ih

namespace Walked

theorem length_eq (h : info.Walked target number status frames stack) : stack.length = frames.length := by
  induction h with
  | last tells => rfl
  | next tells unwound on rest ih => exact congrArg Nat.succ ih

theorem tells (h : info.Walked target number status frames stack) {i : Nat} {f : BacktraceFrame}
    (hf : frames[i]? = some f) : ∃ frame, stack[i]? = some frame ∧ f.Tells (number + i) f.status frame := by
  induction h generalizing i with
  | last tells =>
    cases i with
    | zero =>
      cases hf
      exact ⟨_, rfl, tells.status_eq ▸ tells⟩
    | succ i => cases hf
  | @next number _ _ _ _ _ _ _ tells _ _ _ ih =>
    cases i with
    | zero =>
      cases hf
      exact ⟨_, rfl, tells.status_eq ▸ tells⟩
    | succ i =>
      have hrest := ih hf
      rwa [Nat.add_right_comm number 1 i] at hrest

theorem status_eq (h : info.Walked target number status frames stack) :
    ∃ f, frames[0]? = some f ∧ f.status = status := by
  cases h with
  | last tells => exact ⟨_, rfl, tells.status_eq⟩
  | next tells unwound on rest => exact ⟨_, rfl, tells.status_eq⟩

theorem unwound (h : info.Walked target number status frames stack) {i : Nat}
    (hframe : stack[i]? = some frame) (hcaller : stack[i + 1]? = some caller) :
    goesOn frame caller ∧ ∃ f, frames[i + 1]? = some f ∧
      info.callerOf target (number + i) frame = .ok (some (caller, f.status)) := by
  induction h generalizing i with
  | last tells => cases hcaller
  | @next number _ _ _ _ _ _ _ _ unwound on rest ih =>
    cases i with
    | zero =>
      cases hframe
      cases hcaller
      obtain ⟨f, hf, hstatus⟩ := rest.status_eq
      exact ⟨on, f, hf, hstatus ▸ unwound⟩
    | succ i =>
      have hrest := ih hframe hcaller
      rwa [Nat.add_right_comm number 1 i] at hrest

end Walked

theorem goesOn_iff : goesOn frame caller ↔ caller.pc ≠ 0 ∧ ¬(caller.pc = frame.pc ∧ caller.sp = frame.sp) := by
  grind [goesOn]

/-! ## Backtraces -/

/-- What a backtrace says and the registers it keeps belong together, frame by frame. -/
structure LockStep (info : DebugInfo) (target : Target) (frames : List BacktraceFrame)
    (cache : RegisterCache) : Prop where
  length_eq : cache.frames.length = frames.length
  active_eq : cache.active = 0
  /-- The first frame has the registers of the target. -/
  first : ∃ registers, target.readRegisters = .ok registers ∧ cache.frames[0]? = some registers
  tells : ∀ (i : Nat) (f : BacktraceFrame), frames[i]? = some f →
    ∃ registers, cache.frames[i]? = some registers ∧
      f.number = i ∧ f.pc = registers.pc ∧ f.sp = registers.sp
  unwound : ∀ (i : Nat) (frame caller : RegisterFrame), cache.frames[i]? = some frame →
    cache.frames[i + 1]? = some caller → ∃ f, frames[i + 1]? = some f ∧
      info.callerOf target i frame = .ok (some (caller, f.status))
  pc_ne_zero : ∀ (i : Nat) (f : BacktraceFrame), frames[i + 1]? = some f → f.pc ≠ 0
  moves : ∀ (i : Nat) (f g : BacktraceFrame), frames[i]? = some f → frames[i + 1]? = some g →
    ¬(g.pc = f.pc ∧ g.sp = f.sp)
  /-- The address that unwinding a frame computed is known as long as there is a caller. -/
  cfa_eq : ∀ (i : Nat) (frame : RegisterFrame) (rules : Program × UInt32),
    cache.frames[i]? = some frame → i + 1 < frames.length →
    info.frames.programAt (frame.lookupAddress i) = .ok (some rules) →
      ∃ caller cfa, cache.frames[i + 1]? = some caller ∧ info.Unwinds target i frame caller cfa ∧
        cache.cfa i = some cfa
  cfa_last : cache.cfa (frames.length - 1) = none

theorem Walked.lockStep {registers : RegisterFrame} {callers : List RegisterFrame}
    (hregisters : target.readRegisters = .ok registers)
    (h : info.Walked target 0 .current frames (registers :: callers)) :
    info.LockStep target frames { frames := registers :: callers } := by
  have hlength := h.length_eq
  have hunwound {i : Nat} {frame caller : RegisterFrame} (hframe : (registers :: callers)[i]? = some frame)
      (hcaller : (registers :: callers)[i + 1]? = some caller) :
      goesOn frame caller ∧ ∃ f, frames[i + 1]? = some f ∧
        info.callerOf target i frame = .ok (some (caller, f.status)) := by
    have hstep := h.unwound hframe hcaller
    rwa [Nat.zero_add] at hstep
  have htells {i : Nat} {f : BacktraceFrame} (hf : frames[i]? = some f) :
      ∃ r, (registers :: callers)[i]? = some r ∧ f.number = i ∧ f.pc = r.pc ∧ f.sp = r.sp := by
    obtain ⟨r, hr, hnumber, -, hpc, hsp⟩ := h.tells hf
    exact ⟨r, hr, by rw [hnumber, Nat.zero_add], hpc, hsp⟩
  -- Two neighbours of the backtrace are neighbours in the cache, so the walk went on from one to the other.
  have hgoesOn {i : Nat} {f g : BacktraceFrame} (hf : frames[i]? = some f) (hg : frames[i + 1]? = some g) :
      g.pc ≠ 0 ∧ ¬(g.pc = f.pc ∧ g.sp = f.sp) := by
    obtain ⟨r, hr, -, hpc, hsp⟩ := htells hf
    obtain ⟨q, hq, -, hpc', hsp'⟩ := htells hg
    rw [hpc, hsp, hpc', hsp']
    exact goesOn_iff.mp (hunwound hr hq).1
  exact {
    length_eq := hlength
    active_eq := rfl
    first := ⟨registers, hregisters, rfl⟩
    tells := fun i f => htells
    unwound := fun i frame caller hframe hcaller => (hunwound hframe hcaller).2
    pc_ne_zero := fun i f hf => by
      obtain ⟨hlt, -⟩ := List.getElem?_eq_some_iff.mp hf
      exact (hgoesOn (List.getElem?_eq_getElem (Nat.lt_of_succ_lt hlt)) hf).1
    moves := fun i f g hf hg => (hgoesOn hf hg).2
    cfa_eq := fun i frame rules hframe hlt hrules => by
      have hcaller : (registers :: callers)[i + 1]? = some (registers :: callers)[i + 1] :=
        List.getElem?_eq_getElem (hlength ▸ hlt)
      obtain ⟨-, f, -, hunwound⟩ := hunwound hframe hcaller
      refine ⟨_, _, hcaller, unwinds_of_callerOf hrules hunwound, ?_⟩
      unfold RegisterCache.cfa
      rw [hcaller]
      rfl
    cfa_last := by
      have hlast : (registers :: callers)[frames.length - 1 + 1]? = none :=
        List.getElem?_eq_none (by omega)
      unfold RegisterCache.cfa
      rw [hlast]
      rfl }

/--
A backtrace and the registers that it keeps are in lock step: there are as many of both, and each frame
was unwound from the one before it.
-/
theorem backtrace_lockStep {s s' : Session} (h : info.backtrace target limit s = .ok frames s') :
    1 ≤ frames.length ∧ frames.length ≤ max 1 limit ∧ info.LockStep target frames s'.registers := by
  obtain ⟨registers, callers, hregisters, hcallers, hlength, hlooked⟩ := ran_of_backtrace h
  have hwalked := hlooked.walked
  have hlengths := hwalked.length_eq
  rw [List.length_cons] at hlengths
  refine ⟨by omega, hlength, ?_⟩
  rw [hcallers]
  exact hwalked.lockStep hregisters

/-! ## A walk that drops its last caller -/

/-- The frame address of every frame that call frame information unwinds is known. -/
def KnowsEveryCfa (info : DebugInfo) (target : Target) (cache : RegisterCache) : Prop :=
  ∀ (i : Nat) (frame caller : RegisterFrame) (cfa : UInt32), cache.frames[i]? = some frame →
    info.Unwinds target i frame caller cfa → cache.cfa i = some cfa

/-- Code at `0x100` that keeps its return address below its frame address, eight bytes up the stack. -/
def deadEnd : Sections where
  frame :=
    #[16, 0, 0, 0, 0xff, 0xff, 0xff, 0xff, 1, 0, 2, 0x7c, 14, 0x0c, 13, 8, 0x8e, 1, 0, 0,
      12, 0, 0, 0, 0, 0, 0, 0, 0, 1, 0, 0, 0x40, 0, 0, 0]

def deadEndFrame (sp lr pc : UInt32) : RegisterFrame :=
  ((RegisterFrame.put (Vector.replicate 16 0) 13 sp).put 14 lr).put 15 pc

/-- Two return addresses are on the stack; the second one is zero. -/
def deadEndTarget : Target := Snapshot.target
  { registers := deadEndFrame 0x2000 0 0x104
    images := [⟨.ram, 0x2000, #[0, 0, 0, 0, 0x20, 1, 0, 0, 0, 0, 0, 0, 0, 0, 0, 0]⟩] }

theorem backtrace_deadEnd : (build deadEnd).toOption.bind (fun info =>
    match info.backtrace deadEndTarget 4 {} with
    | .ok _ s => some (s.registers,
        (info.frames.programAt ((deadEndFrame 0x2008 0x120 0x120).lookupAddress 1)).toOption.join.isSome,
        (info.callerOf deadEndTarget 1 (deadEndFrame 0x2008 0x120 0x120)).toOption.join)
    | .error _ _ => none) =
      some ({ frames := [deadEndFrame 0x2000 0 0x104, deadEndFrame 0x2008 0x120 0x120] }, true,
        some (deadEndFrame 0x2010 0 0, .complete)) := by
  decide +kernel

theorem ok_some_of_toOption {ε α : Type} {x : Except ε (Option α)} {a : α} (h : x.toOption.join = some a) :
    x = .ok (some a) := by
  cases x with
  | error e => cases h
  | ok found =>
    rw [show found = some a from h]

theorem ran_deadEnd : ∃ info frames s rules, build deadEnd = .ok info ∧
    info.backtrace deadEndTarget 4 {} = .ok frames s ∧
    s.registers = { frames := [deadEndFrame 0x2000 0 0x104, deadEndFrame 0x2008 0x120 0x120] } ∧
    info.frames.programAt ((deadEndFrame 0x2008 0x120 0x120).lookupAddress 1) = .ok (some rules) ∧
    info.callerOf deadEndTarget 1 (deadEndFrame 0x2008 0x120 0x120) =
      .ok (some (deadEndFrame 0x2010 0 0, .complete)) := by
  have hran := backtrace_deadEnd
  cases hbuild : build deadEnd with
  | error e =>
    rw [hbuild] at hran
    cases hran
  | ok info =>
    simp only [hbuild, Except.toOption, Option.bind_some] at hran
    cases hbacktrace : info.backtrace deadEndTarget 4 {} with
    | error e s =>
      rw [hbacktrace] at hran
      cases hran
    | ok frames s =>
      simp only [hbacktrace, Option.some.injEq, Prod.mk.injEq] at hran
      obtain ⟨hregisters, hrules, hcaller⟩ := hran
      obtain ⟨rules, hrules⟩ := Option.isSome_iff_exists.mp hrules
      exact ⟨info, frames, s, rules, rfl, hbacktrace, hregisters, ok_some_of_toOption hrules,
        ok_some_of_toOption hcaller⟩

theorem lockStep_deadEnd : ∃ info frames s, build deadEnd = .ok info ∧
    info.backtrace deadEndTarget 4 {} = .ok frames s ∧
    1 ≤ frames.length ∧ frames.length ≤ max 1 4 ∧ info.LockStep deadEndTarget frames s.registers := by
  obtain ⟨info, frames, s, -, hbuild, hbacktrace, -⟩ := ran_deadEnd
  exact ⟨info, frames, s, hbuild, hbacktrace, backtrace_lockStep hbacktrace⟩

/-- The frame address of the last frame was computed, but there is no caller to know it from. -/
theorem not_knowsEveryCfa_deadEnd : ∃ info frames s, build deadEnd = .ok info ∧
    info.backtrace deadEndTarget 4 {} = .ok frames s ∧ ¬ info.KnowsEveryCfa deadEndTarget s.registers := by
  obtain ⟨info, frames, s, rules, hbuild, hbacktrace, hregisters, hrules, hcaller⟩ := ran_deadEnd
  refine ⟨info, frames, s, hbuild, hbacktrace, fun h => ?_⟩
  have hframe : s.registers.frames[1]? = some (deadEndFrame 0x2008 0x120 0x120) := by
    rw [hregisters]
    rfl
  have hcfa : s.registers.cfa 1 = none := by
    rw [hregisters]
    rfl
  have hknown := h 1 _ _ _ hframe (unwinds_of_callerOf hrules hcaller)
  rw [hcfa] at hknown
  cases hknown

end DebugInfo

end FirmwareDebug
