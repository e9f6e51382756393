import FirmwareDebug.Proofs.Backtrace

/-!
# Interrupted frames

The program counter of a frame that the processor saved is the address of the instruction that was
interrupted, not a return address. A walk takes it for one all the same, and looks the frame up one byte
before: code that was interrupted at the first instruction of a function is taken for what lies before it.
-/

namespace FirmwareDebug

/-- The rule that takes interrupted code at its instruction, and every other frame as a walk does. -/
def LookupRule.exact : LookupRule := fun number status frame =>
  if status = .exception then frame.pc else frame.lookupAddress number

namespace DebugInfo

variable {info : DebugInfo} {target : Target} {rule other : LookupRule} {recent : Option Nat} {number limit : Nat}
  {status : FrameStatus} {frame caller : RegisterFrame} {frames : List BacktraceFrame} {stack : List RegisterFrame}

theorem lookupAddress_of_ne_zero (hnumber : number ≠ 0) (h : ¬ frame.isExceptionReturn) :
    frame.lookupAddress number = frame.pc - 1 := by
  rw [RegisterFrame.lookupAddress, if_neg h, lookupAddress, if_neg hnumber]

/-- The rules differ for frames that the processor saved, unless they return from an exception themselves. -/
theorem returning_ne_exact_iff (hnumber : status = .exception → number ≠ 0) :
    LookupRule.returning number status frame ≠ LookupRule.exact number status frame ↔
      status = .exception ∧ ¬ frame.isExceptionReturn := by
  unfold LookupRule.returning LookupRule.exact
  split
  case isFalse hstatus => exact ⟨fun h => absurd rfl h, fun h => absurd h.1 hstatus⟩
  case isTrue hstatus =>
    by_cases hreturn : frame.isExceptionReturn
    · rw [RegisterFrame.lookupAddress, if_pos hreturn]
      exact ⟨fun h => absurd rfl h, fun h => absurd hreturn h.2⟩
    · rw [lookupAddress_of_ne_zero (hnumber hstatus) hreturn]
      refine ⟨fun _ => ⟨hstatus, hreturn⟩, fun _ h => ?_⟩
      have hone : (1 : UInt32) = 0 := by grind
      cases hone

theorem status_of_callerOf (h : info.callerOf target number frame = .ok (some (caller, status))) :
    status = .exception ↔ frame.isExceptionReturn := by
  obtain ⟨rules, -, h⟩ := ok_of_bind h
  have hstatus : status = if frame.isExceptionReturn then .exception else .complete := by
    dsimp only at h
    cases hcaller : callerByRules frame target rules with
    | error e =>
      rw [hcaller] at h
      dsimp only at h
      split at h <;> cases h
    | ok found =>
      rw [hcaller] at h
      cases found with
      | none => cases h
      | some found =>
        cases h
        rfl
  rw [hstatus]
  split <;> simp_all

namespace LookedUp

theorem congr (h : info.LookedUp target rule recent number status frames stack)
    (hagree : ∀ (i : Nat) (f : BacktraceFrame) (frame : RegisterFrame), frames[i]? = some f → stack[i]? = some frame →
      rule (number + i) f.status frame = other (number + i) f.status frame) :
    info.LookedUp target other recent number status frames stack := by
  induction h with
  | last described =>
    have hfirst := hagree 0 _ _ rfl rfl
    rw [(tells_of_describeAt described).status_eq, Nat.add_zero] at hfirst
    exact .last (hfirst ▸ described)
  | @next _ _ number _ _ _ _ _ _ _ described unwound on rest ih =>
    have hfirst := hagree 0 _ _ rfl rfl
    rw [(tells_of_describeAt described).status_eq, Nat.add_zero] at hfirst
    refine .next (hfirst ▸ described) (hfirst ▸ unwound) on (ih fun i f frame hf hframe => ?_)
    have hrest := hagree (i + 1) f frame hf hframe
    rwa [Nat.add_comm i 1, ← Nat.add_assoc] at hrest

end LookedUp

/-- What a rule tells of frames whose registers are known. -/
def retell (info : DebugInfo) (rule : LookupRule) : (number : Nat) → List (FrameStatus × RegisterFrame) →
    Query (List BacktraceFrame)
  | _, [] => return []
  | number, (status, frame) :: rest => do
    let f ← info.describeAt (rule number status frame) number frame status
    return f :: (← info.retell rule (number + 1) rest)

theorem LookedUp.retold (h : info.LookedUp target rule recent number status frames stack) :
    ∃ last, info.retell rule number ((frames.map BacktraceFrame.status).zip stack) recent = .ok frames last := by
  induction h with
  | @last _ next _ _ _ _ described =>
    refine ⟨next, ?_⟩
    rw [List.map_singleton, (tells_of_describeAt described).status_eq, List.zip_cons_cons, retell, run_bind,
      described]
    rfl
  | next described unwound on rest ih =>
    obtain ⟨last, hrest⟩ := ih
    refine ⟨last, ?_⟩
    rw [List.map_cons, (tells_of_describeAt described).status_eq, List.zip_cons_cons, retell, run_bind, described]
    dsimp only
    rw [run_bind_of_ok hrest]
    rfl

theorem Walked.interrupted_iff (h : info.Walked target 0 .current frames stack) {i : Nat} {f : BacktraceFrame}
    (hf : frames[i]? = some f) : f.status = .exception ↔
      ∃ before : RegisterFrame, i ≠ 0 ∧ stack[i - 1]? = some before ∧ before.isExceptionReturn := by
  cases i with
  | zero =>
    obtain ⟨first, hfirst, hstatus⟩ := h.status_eq
    obtain rfl := Option.some.inj (hf.symm.trans hfirst)
    simp [hstatus]
  | succ i =>
    obtain ⟨caller, hcaller, -⟩ := h.tells hf
    have hlt := (List.getElem?_eq_some_iff.mp hcaller).choose
    have hbefore : stack[i]? = some stack[i] := List.getElem?_eq_getElem (Nat.lt_of_succ_lt hlt)
    obtain ⟨-, g, hg, hunwound⟩ := h.unwound hbefore hcaller
    obtain rfl := Option.some.inj (hf.symm.trans hg)
    rw [status_of_callerOf hunwound, Nat.add_sub_cancel, hbefore]
    simp

/--
All that a backtrace says of a frame but the innermost one comes from the address before its program
counter, whether that is a return address or the address of an interrupted instruction; only values that
stand for the return from an exception are looked up as they are. What was interrupted is looked up at the
wrong address, then, and the rest is not.
-/
theorem backtrace_lookups {s s' : Session} (h : info.backtrace target limit s = .ok frames s') :
    info.LookedUp target .returning s.recent 0 .current frames s'.registers.frames ∧
    (∀ (i : Nat) (f : BacktraceFrame) (frame : RegisterFrame), frames[i]? = some f →
      s'.registers.frames[i]? = some frame →
        (f.status = .exception ↔ ∃ before : RegisterFrame, i ≠ 0 ∧ s'.registers.frames[i - 1]? = some before ∧
          before.isExceptionReturn) ∧
        (LookupRule.returning i f.status frame ≠ LookupRule.exact i f.status frame ↔
          f.status = .exception ∧ ¬ frame.isExceptionReturn)) ∧
    ((∀ (i : Nat) (f : BacktraceFrame) (frame : RegisterFrame), frames[i]? = some f →
      s'.registers.frames[i]? = some frame → f.status = .exception → frame.isExceptionReturn) →
        info.LookedUp target .exact s.recent 0 .current frames s'.registers.frames) := by
  obtain ⟨registers, callers, -, hcallers, -, hlooked⟩ := ran_of_backtrace h
  rw [hcallers]
  have hrules {i : Nat} {f : BacktraceFrame} {frame : RegisterFrame} (hf : frames[i]? = some f) :
      LookupRule.returning i f.status frame ≠ LookupRule.exact i f.status frame ↔
        f.status = .exception ∧ ¬ frame.isExceptionReturn :=
    returning_ne_exact_iff fun hstatus => ((hlooked.walked.interrupted_iff hf).mp hstatus).choose_spec.1
  refine ⟨hlooked, fun i f frame hf hframe => ⟨hlooked.walked.interrupted_iff hf, hrules hf⟩, fun hnone => ?_⟩
  refine hlooked.congr fun i f frame hf hframe => ?_
  rw [Nat.zero_add]
  by_contra hne
  obtain ⟨hstatus, hreturn⟩ := (hrules hf).mp hne
  exact hreturn (hnone i f frame hf hframe hstatus)

/-- Two functions side by side, `f` at `0x100` and `g` at `0x110`, and a handler at `0x200`. -/
def neighbours : Sections where
  info := #[39, 0, 0, 0, 4, 0, 0, 0, 0, 0, 4, 1, 0, 1, 0, 0, 0x20, 0, 0, 0, 2, 0x66, 0, 0, 1, 0, 0, 0x10, 0, 0, 0,
    2, 0x67, 0, 0x10, 1, 0, 0, 0x10, 0, 0, 0, 0]
  abbreviations := #[1, 0x11, 1, 0x11, 1, 0x12, 6, 0, 0, 2, 0x2e, 0, 3, 8, 0x11, 1, 0x12, 6, 0, 0, 0]
  frame := #[16, 0, 0, 0, 0xff, 0xff, 0xff, 0xff, 1, 0, 2, 0x7c, 14, 0x0c, 13, 0, 0x08, 14, 0, 0,
    12, 0, 0, 0, 0, 0, 0, 0, 0, 2, 0, 0, 0x40, 0, 0, 0]

/-- A target that is stopped in the handler, which interrupted the first instruction of `g`. -/
def handling : Target := Snapshot.target
  { registers := deadEndFrame 0x2000 0xfffffff9 0x204
    images := [⟨.ram, 0x2000, #[0, 0, 0, 0, 0, 0, 0, 0, 0, 0, 0, 0, 0, 0, 0, 0, 0, 0, 0, 0, 0, 0, 0, 0, 0x10, 1, 0, 0,
      0, 0, 0, 0]⟩] }

def functionsOf (frames : List BacktraceFrame) : List (FrameStatus × UInt32 × Option String) :=
  frames.map fun f => (f.status, f.pc, f.function)

theorem backtrace_handling : (build neighbours).toOption.bind (fun info =>
    match info.backtrace handling 3 {} with
    | .ok frames s =>
      match info.retell .exact 0 ((frames.map BacktraceFrame.status).zip s.registers.frames) none with
      | .ok retold _ => some [functionsOf frames, functionsOf retold]
      | .error _ _ => none
    | .error _ _ => none) = some
      [[(.current, 0x204, none), (.complete, 0xfffffff8, none), (.exception, 0x110, some "f")],
        [(.current, 0x204, none), (.complete, 0xfffffff8, none), (.exception, 0x110, some "g")]] := by
  decide +kernel

theorem ran_handling : ∃ info frames s retold last, build neighbours = .ok info ∧
    info.backtrace handling 3 {} = .ok frames s ∧
    info.retell .exact 0 ((frames.map BacktraceFrame.status).zip s.registers.frames) none = .ok retold last ∧
    functionsOf frames =
      [(.current, 0x204, none), (.complete, 0xfffffff8, none), (.exception, 0x110, some "f")] ∧
    functionsOf retold =
      [(.current, 0x204, none), (.complete, 0xfffffff8, none), (.exception, 0x110, some "g")] := by
  obtain ⟨info, hinfo, hran⟩ := Option.bind_eq_some_iff.mp backtrace_handling
  cases hbacktrace : info.backtrace handling 3 {} with
  | error e s =>
    rw [hbacktrace] at hran
    cases hran
  | ok frames s =>
    simp only [hbacktrace] at hran
    split at hran
    case h_1 retold last hretold =>
      simp only [Option.some.injEq, List.cons.injEq, and_true] at hran
      exact ⟨info, frames, s, retold, last, ok_of_toOption hinfo, hbacktrace, hretold, hran.1, hran.2⟩
    case h_2 => cases hran

theorem lookups_handling : ∃ info frames s, build neighbours = .ok info ∧
    info.backtrace handling 3 {} = .ok frames s ∧
    functionsOf frames =
      [(.current, 0x204, none), (.complete, 0xfffffff8, none), (.exception, 0x110, some "f")] ∧
    info.LookedUp handling .returning none 0 .current frames s.registers.frames := by
  obtain ⟨info, frames, s, _, _, hinfo, hbacktrace, -, hframes, -⟩ := ran_handling
  exact ⟨info, frames, s, hinfo, hbacktrace, hframes, (backtrace_lookups hbacktrace).1⟩

/-- The first instruction of `g` was interrupted, and the backtrace says `f`. -/
theorem not_lookedUp_exact_handling : ∃ info frames s, build neighbours = .ok info ∧
    info.backtrace handling 3 {} = .ok frames s ∧
    ¬ info.LookedUp handling .exact none 0 .current frames s.registers.frames := by
  obtain ⟨info, frames, s, retold, last, hinfo, hbacktrace, hretold, hframes, hexact⟩ := ran_handling
  refine ⟨info, frames, s, hinfo, hbacktrace, fun h => ?_⟩
  obtain ⟨_, hsame⟩ := h.retold
  cases hsame.symm.trans hretold
  rw [hexact] at hframes
  simp at hframes

end DebugInfo

end FirmwareDebug
