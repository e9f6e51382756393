import FirmwareDebug.Proofs.CallFrame.Caller

/-!
# Rows that start at the target address

A call frame program goes on until a move leads behind its target address, so a row that starts at the
target address itself is in force there. On the way to the address before, the program stops in front of
the move that starts this row. Where no row starts, both addresses have the same one.
-/

namespace FirmwareDebug

/-- The address that a word moves the location to, if it does. -/
def FrameWord.destination? (location : UInt32) : FrameWord → Option UInt32
  | .setLocation address => some address
  | .advance delta => some (location + delta)
  | _ => none

/-- The same state on the way to the address before the target address. -/
def Unwinding.before (state : Unwinding) : Unwinding := { state with target := state.target - 1 }

namespace CallFrame

/-- The words that a program carries out until it stops; one that fails is the last. -/
def carried (state : Unwinding) : List FrameWord → List FrameWord
  | [] => []
  | word :: rest =>
    match state.step word with
    | .error _ => [word]
    | .ok none => []
    | .ok (some next) => word :: carried next rest

/-- The addresses of the rows that a program starts until it stops. -/
def rowStarts (state : Unwinding) : List FrameWord → List UInt32
  | [] => []
  | word :: rest =>
    match state.step word with
    | .ok (some next) => (word.destination? state.location).toList ++ rowStarts next rest
    | _ => []

variable {state : Unwinding} {word : FrameWord} {words : List FrameWord}

/-! ## One word -/

theorem before_target_lt_iff {location : UInt32} (hzero : state.target ≠ 0) :
    state.before.target < location ↔ state.target ≤ location := by
  change state.target - 1 < location ↔ _
  grind

theorem moveTo_before {location : UInt32} (hzero : state.target ≠ 0) (hne : location ≠ state.target) :
    state.before.moveTo location = (state.moveTo location).map Unwinding.before := by
  unfold Unwinding.moveTo
  by_cases hpassed : state.target < location
  · rw [if_pos hpassed, if_pos ((before_target_lt_iff hzero).mpr (UInt32.le_of_lt hpassed))]
    rfl
  · have hle : ¬ state.target ≤ location := fun h => hpassed (UInt32.lt_of_le_of_ne h hne.symm)
    rw [if_neg hpassed, if_neg (mt (before_target_lt_iff hzero).mp hle)]
    rfl

/-- What a word does on the way to the target address, and on the way to the address before. -/
inductive Beside (state : Unwinding) (word : FrameWord) : Prop
  | fails {e : Fault} (step : state.step word = .error e) (before : state.before.step word = .error e)
  | stops (step : state.step word = .ok none) (before : state.before.step word = .ok none)
  | along {next : Unwinding} (step : state.step word = .ok (some next))
      (before : state.before.step word = .ok (some next.before)) (target : next.target = state.target)
      (off : state.target ∉ word.destination? state.location)
  | starts {next : Unwinding} (step : state.step word = .ok (some next)) (before : state.before.step word = .ok none)
      (on : state.target ∈ word.destination? state.location)

theorem beside_move {location : UInt32} (hzero : state.target ≠ 0)
    (hmove : word.destination? state.location = some location)
    (hstep : ∀ other : Unwinding, other.location = state.location → other.step word = .ok (other.moveTo location)) :
    Beside state word := by
  by_cases hon : location = state.target
  · subst hon
    have hgoes : state.moveTo state.target = some { state with location := state.target } :=
      if_neg (UInt32.lt_irrefl _)
    refine .starts (by rw [hstep state rfl, hgoes]) ?_ hmove
    rw [hstep state.before rfl, Unwinding.moveTo, if_pos ((before_target_lt_iff hzero).mpr (UInt32.le_refl _))]
  · have hbefore := hstep state.before rfl
    rw [moveTo_before hzero hon] at hbefore
    cases hgoes : state.moveTo location with
    | none =>
      rw [hgoes] at hbefore
      exact .stops (by rw [hstep state rfl, hgoes]) hbefore
    | some next =>
      rw [hgoes] at hbefore
      refine .along (by rw [hstep state rfl, hgoes]) hbefore ?_ ?_
      · unfold Unwinding.moveTo at hgoes
        split at hgoes <;> cases hgoes
        rfl
      · rw [hmove]
        simpa using hon

theorem beside (hzero : state.target ≠ 0) (word : FrameWord) : Beside state word := by
  cases word with
  | setLocation address => exact beside_move hzero rfl fun _ _ => rfl
  | advance delta => exact beside_move hzero rfl fun _ h => by rw [← h]; rfl
  | restoreState =>
    cases hremembered : state.remembered with
    | nil =>
      refine .fails (e := .stackUnderflow (.operand (.frame .restoreState))) ?_ ?_
      · rw [Unwinding.step, hremembered]
        rfl
      · rw [Unwinding.step, Unwinding.before, hremembered]
        rfl
    | cons row remembered =>
      have hstep : state.step .restoreState = .ok (some { state with row, remembered }) := by
        rw [Unwinding.step, hremembered]
        rfl
      refine .along hstep ?_ rfl (Option.not_mem_none _)
      rw [Unwinding.step, Unwinding.before, hremembered]
      rfl
  | _ => exact .along rfl rfl rfl (Option.not_mem_none _)

/-! ## A whole program -/

section

variable {next : Unwinding} {rest : List FrameWord}

theorem mem_rowStarts_of_on (step : state.step word = .ok (some next))
    (on : state.target ∈ word.destination? state.location) : state.target ∈ rowStarts state (word :: rest) := by
  rw [rowStarts, step]
  exact List.mem_append_left _ (Option.mem_toList.mpr on)

theorem mem_rowStarts_of_off (step : state.step word = .ok (some next)) (target : next.target = state.target)
    (off : state.target ∉ word.destination? state.location) :
    state.target ∈ rowStarts state (word :: rest) ↔ next.target ∈ rowStarts next rest := by
  rw [rowStarts, step, target, List.mem_append, Option.mem_toList]
  exact or_iff_right off

end

theorem runFrames_before (hzero : state.target ≠ 0) (h : state.target ∉ rowStarts state words) :
    runFrames state.before words = (runFrames state words).map Unwinding.before := by
  induction words generalizing state with
  | nil => rfl
  | cons word rest ih =>
    unfold runFrames
    cases beside hzero word with
    | fails step before =>
      rw [step, before]
      rfl
    | stops step before =>
      rw [step, before]
      rfl
    | @along next step before target off =>
      rw [step, before]
      exact ih (target ▸ hzero) (mt (mem_rowStarts_of_off step target off).mpr h)
    | starts step before on => exact absurd (mem_rowStarts_of_on step on) h

theorem carried_before (hzero : state.target ≠ 0) (h : state.target ∉ rowStarts state words) :
    carried state.before words = carried state words := by
  induction words generalizing state with
  | nil => rfl
  | cons word rest ih =>
    unfold carried
    cases beside hzero word with
    | fails step before => rw [step, before]
    | stops step before => rw [step, before]
    | @along next step before target off =>
      rw [step, before]
      exact congrArg (word :: ·) (ih (target ▸ hzero) (mt (mem_rowStarts_of_off step target off).mpr h))
    | starts step before on => exact absurd (mem_rowStarts_of_on step on) h

theorem carried_of_mem (hzero : state.target ≠ 0) (h : state.target ∈ rowStarts state words) :
    ∃ move rest, carried state words = carried state.before words ++ move :: rest := by
  induction words generalizing state with
  | nil => cases h
  | cons word rest ih =>
    unfold carried
    cases beside hzero word with
    | fails step before =>
      rw [rowStarts, step] at h
      cases h
    | stops step before =>
      rw [rowStarts, step] at h
      cases h
    | @along next step before target off =>
      rw [step, before]
      obtain ⟨move, behind, hcarried⟩ := ih (target ▸ hzero) ((mem_rowStarts_of_off step target off).mp h)
      exact ⟨move, behind, congrArg (word :: ·) hcarried⟩
    | @starts next step before on =>
      rw [step, before]
      exact ⟨word, carried next rest, rfl⟩

/-- The rows at an address and at the one before come from different words exactly where a row starts. -/
theorem mem_rowStarts_iff (hzero : state.target ≠ 0) :
    state.target ∈ rowStarts state words ↔ carried state words ≠ carried state.before words := by
  refine ⟨fun h hsame => ?_, fun hne => ?_⟩
  · obtain ⟨move, rest, hcarried⟩ := carried_of_mem hzero h
    have hlength := congrArg List.length (hsame.symm.trans hcarried)
    rw [List.length_append, List.length_cons] at hlength
    omega
  · by_contra h
    exact hne (carried_before hzero h).symm

theorem unwindRowAt_before {start address : UInt32} (hzero : address ≠ 0)
    (h : address ∉ rowStarts { location := start, target := address } words) (host : Host Unit) :
    unwindRowAt (words.map .frame) start (address - 1) host = unwindRowAt (words.map .frame) start address host := by
  rw [unwindRowAt_frames, unwindRowAt_frames]
  change (runFrames (Unwinding.before { location := start, target := address }) words).map _ = _
  rw [runFrames_before hzero h]
  cases runFrames { location := start, target := address } words <;> rfl

end CallFrame

end FirmwareDebug
