import FirmwareDebug.Proofs.Indifference

/-!
# What the unit found last does to later answers

A question about an address tries the unit that was found last. Only first hits are ever remembered,
whatever was asked, so later answers are those of a fresh index exactly when a unit that is first for
one address is first for all that it covers.
-/

namespace FirmwareDebug

namespace DebugInfo

/-! ## Only first hits are remembered -/

/-- What is remembered, if anything, was the first unit for some address. -/
def IsFirstHit (info : DebugInfo) (recent : Option Nat) : Prop :=
  ∀ number, recent = some number → ∃ address, info.firstUnitCovering address = some number

/-- A query only leaves first hits. -/
def QueryKeeps (info : DebugInfo) {α : Type} (q : Query α) : Prop :=
  Keeps info.IsFirstHit (fun _ => True) q

/-- An evaluation only leaves first hits. -/
def EvaluationKeeps (info : DebugInfo) {α : Type} (evaluation : Evaluation α) : Prop :=
  Keeps (fun s : Session => info.IsFirstHit s.recent) (fun _ => True) evaluation

variable {info : DebugInfo} {α : Type}

theorem run_unitNumberCovering (address : UInt32) (recent : Option Nat) :
    info.unitNumberCovering address recent =
      if recent.any (info.unitCovers address) then .ok recent recent
      else .ok (info.firstUnitCovering address) ((info.firstUnitCovering address).or recent) := by
  unfold unitNumberCovering
  rw [run_bind]
  show (if recent.any (info.unitCovers address) then pure recent else _ : Query (Option Nat)) recent = _
  split
  · rfl
  · cases info.firstUnitCovering address with
    | none => rfl
    | some number => rfl

theorem keeps_unitNumberCovering (address : UInt32) : info.QueryKeeps (info.unitNumberCovering address) := by
  intro recent hrecent
  rw [run_unitNumberCovering]
  split
  · rename_i h
    split at h <;> cases h
    · exact hrecent
    · intro number hnumber
      cases hfirst : info.firstUnitCovering address with
      | none =>
        rw [hfirst, Option.none_or] at hnumber
        exact hrecent number hnumber
      | some first =>
        rw [hfirst, Option.some_or] at hnumber
        exact ⟨address, hfirst.trans hnumber⟩
  · rename_i h
    split at h <;> cases h

/-! ## Questions about addresses -/

theorem keeps_of_indifferent {q : Query α}
    (h : (∀ address, Indifferent (fun r t => r = t ∧ info.IsFirstHit r) (info.unitNumberCovering address)) →
      Indifferent (fun r t => r = t ∧ info.IsFirstHit r) q) : info.QueryKeeps q :=
  .of_alike (h fun address => (keeps_unitNumberCovering address).alike)

theorem keeps_contextAt (pc : UInt32) : info.QueryKeeps (info.contextAt pc) :=
  keeps_of_indifferent fun h => indifferent_contextAt h pc

theorem keeps_callReturningTo (address : UInt32) : info.QueryKeeps (info.callReturningTo address) :=
  keeps_of_indifferent fun h => indifferent_callReturningTo h address

theorem keeps_sourceLineOf (address : UInt32) : info.QueryKeeps (info.sourceLineOf address) :=
  keeps_of_indifferent fun h => indifferent_sourceLineOf h address

theorem keeps_describeFrame (number : Nat) (frame : RegisterFrame) (status : FrameStatus) :
    info.QueryKeeps (info.describeFrame number frame status) :=
  keeps_of_indifferent fun h => indifferent_describeFrame h number frame status

/-! ## Evaluations -/

theorem keeps_query {q : Query α} (h : info.QueryKeeps q) : info.EvaluationKeeps (Evaluation.query q) := by
  intro s hs
  have hq := h s.recent hs
  unfold Evaluation.query
  cases hrun : q s.recent with
  | ok a recent =>
    rw [hrun] at hq
    exact hq
  | error e recent =>
    rw [hrun] at hq
    exact hq

theorem keeps_result (x : Except Fault α) : info.EvaluationKeeps (liftExcept x) :=
  .liftExcept fun _ _ => trivial

theorem keeps_of_query {evaluation : Evaluation α} {q : Session → Query α}
    (heq : ∀ s, evaluation s = Evaluation.query (q s) s) (h : ∀ s, info.QueryKeeps (q s)) :
    info.EvaluationKeeps evaluation := by
  intro s hs
  rw [heq]
  exact keeps_query (h s) s hs

theorem keeps_entryValue (target : Target) (block : List UInt8) :
    info.EvaluationKeeps (info.entryValue target block) :=
  keeps_of_query (fun _ => (asQuery_entryValue block).run_eq rfl)
    fun _ => keeps_of_indifferent fun h => Fixed.indifferent_entryValue h _ _ block

theorem keeps_evaluateLocation (target : Target) (cfa : Option UInt32) (frameBase : Option Program)
    (program : Program) : info.EvaluationKeeps (info.evaluateLocation target cfa frameBase program) :=
  keeps_of_query (fun _ => (asQuery_evaluateLocation cfa frameBase program).run_eq rfl)
    fun _ => keeps_of_indifferent fun h => Fixed.indifferent_evaluateLocation h _ frameBase program

theorem keeps_evaluateObject (target : Target) (frame : Nat) (object : DataObject) (size : Nat) :
    info.EvaluationKeeps (info.evaluateObject target frame object size) :=
  keeps_of_query (fun _ => (asQuery_evaluateObject frame object size).run_eq rfl)
    fun _ => keeps_of_indifferent fun h => Fixed.indifferent_evaluateObject h _ frame object size

theorem keeps_walk (target : Target) (budget number : Nat) (frame : RegisterFrame) (status : FrameStatus) :
    info.EvaluationKeeps (info.walk target budget number frame status) := by
  induction budget generalizing number frame status with
  | zero => exact .pure _
  | succ budget ih =>
    refine (keeps_query (keeps_describeFrame number frame status)).bind fun described => ?_
    split
    · exact .pure _
    · refine (keeps_result _).bind fun caller => ?_
      split
      · exact .pure _
      · split
        · exact Keeps.bind (.modify fun _ hs => hs) fun _ => (ih _ _ _).bind fun _ => .pure _
        · exact .pure _

theorem keeps_backtrace (target : Target) (limit : Nat) :
    info.EvaluationKeeps (info.backtrace target limit) := by
  refine Keeps.bind (.modify fun _ hs => hs) fun _ => (keeps_result _).bind fun frame => ?_
  exact Keeps.bind (.modify fun _ hs => hs) fun _ => keeps_walk target _ _ _ _

/-! ## Histories -/

/-- What may be asked that looks for the unit of an address, by itself or on the way. -/
inductive Question
  | unit (address : UInt32)
  | context (pc : UInt32)
  | call (returnAddress : UInt32)
  | sourceLine (address : UInt32)
  | describeFrame (number : Nat) (frame : RegisterFrame) (status : FrameStatus)
  | backtrace (target : Target) (limit : Nat)
  | entryValue (target : Target) (block : List UInt8)
  | location (target : Target) (cfa : Option UInt32) (frameBase : Option Program) (program : Program)
  | object (target : Target) (frame : Nat) (object : DataObject) (size : Nat)

/-- Ask a question; the answer does not matter. -/
def ask (info : DebugInfo) : Question → Evaluation Unit
  | .unit address => discard (Evaluation.query (info.unitNumberCovering address))
  | .context pc => discard (Evaluation.query (info.contextAt pc))
  | .call returnAddress => discard (Evaluation.query (info.callReturningTo returnAddress))
  | .sourceLine address => discard (Evaluation.query (info.sourceLineOf address))
  | .describeFrame number frame status => discard (Evaluation.query (info.describeFrame number frame status))
  | .backtrace target limit => discard (info.backtrace target limit)
  | .entryValue target block => discard (info.entryValue target block)
  | .location target cfa frameBase program => discard (info.evaluateLocation target cfa frameBase program)
  | .object target frame object size => discard (info.evaluateObject target frame object size)

/-- The session after some questions. One that fails leaves behind what it has changed. -/
def sessionAfter (info : DebugInfo) (s : Session) : List Question → Session
  | [] => s
  | question :: rest =>
    match info.ask question s with
    | .ok _ next => info.sessionAfter next rest
    | .error _ next => info.sessionAfter next rest

/-- Asked in a session, the answer for an address is the first unit that covers it. -/
def AnswersFirst (info : DebugInfo) (s : Session) (address : UInt32) : Prop :=
  ∃ recent, info.unitNumberCovering address s.recent = .ok (info.firstUnitCovering address) recent

/-- A unit that is the first one for some address is the first one for every address it covers. -/
def FirstEverywhere (info : DebugInfo) : Prop :=
  ∀ other number, info.firstUnitCovering other = some number →
    ∀ address, info.unitCovers address number = true → info.firstUnitCovering address = some number

theorem keeps_discard {evaluation : Evaluation α} (h : info.EvaluationKeeps evaluation) :
    info.EvaluationKeeps (discard evaluation) := by
  rw [discard_eq]
  exact h.bind fun _ => .pure _

theorem keeps_ask (question : Question) : info.EvaluationKeeps (info.ask question) := by
  cases question with
  | unit address => exact keeps_discard (keeps_query (keeps_unitNumberCovering address))
  | context pc => exact keeps_discard (keeps_query (keeps_contextAt pc))
  | call returnAddress => exact keeps_discard (keeps_query (keeps_callReturningTo returnAddress))
  | sourceLine address => exact keeps_discard (keeps_query (keeps_sourceLineOf address))
  | describeFrame number frame status =>
    exact keeps_discard (keeps_query (keeps_describeFrame number frame status))
  | backtrace target limit => exact keeps_discard (keeps_backtrace target limit)
  | entryValue target block => exact keeps_discard (keeps_entryValue target block)
  | location target cfa frameBase program =>
    exact keeps_discard (keeps_evaluateLocation target cfa frameBase program)
  | object target frame object size => exact keeps_discard (keeps_evaluateObject target frame object size)

theorem isFirstHit_sessionAfter {s : Session} (hs : info.IsFirstHit s.recent) (history : List Question) :
    info.IsFirstHit (info.sessionAfter s history).recent := by
  induction history generalizing s with
  | nil => exact hs
  | cons question rest ih =>
    have hkeeps := keeps_ask question s hs
    unfold sessionAfter
    split
    · rename_i hrun
      rw [hrun] at hkeeps
      exact ih hkeeps
    · rename_i hrun
      rw [hrun] at hkeeps
      exact ih hkeeps.1

theorem answersFirst_of_isFirstHit (h : info.FirstEverywhere) {s : Session} (hs : info.IsFirstHit s.recent)
    (address : UInt32) : info.AnswersFirst s address := by
  unfold AnswersFirst
  rw [run_unitNumberCovering]
  split
  · rename_i hrecent
    rw [Option.any_eq_true] at hrecent
    obtain ⟨number, heq, hcovers⟩ := hrecent
    obtain ⟨other, hother⟩ := hs number heq
    rw [heq, h other number hother address hcovers]
    exact ⟨_, rfl⟩
  · exact ⟨_, rfl⟩

theorem recent_after_unit {other : UInt32} {number : Nat} (h : info.firstUnitCovering other = some number)
    (registers : RegisterCache) :
    (info.sessionAfter { registers } [.unit other]).recent = some number := by
  have hrun : info.unitNumberCovering other none = .ok (some number) (some number) := by
    rw [run_unitNumberCovering, h]
    rfl
  have hquery : Evaluation.query (info.unitNumberCovering other) { registers } =
      .ok (some number) ⟨some number, registers⟩ := by
    unfold Evaluation.query
    rw [hrun]
  have hask : info.ask (.unit other) { registers } = .ok ⟨⟩ ⟨some number, registers⟩ := by
    show (discard (Evaluation.query (info.unitNumberCovering other)) : Evaluation Unit) _ = _
    rw [discard_eq, run_bind_of_ok hquery]
    rfl
  unfold sessionAfter
  rw [hask]
  rfl

/--
A fresh index answers with the first unit that covers an address. It answers so after all histories, for
all addresses, exactly if a unit that is the first one somewhere is so for every address it covers.
-/
theorem answersFirst_iff (info : DebugInfo) :
    (∀ registers address, info.AnswersFirst { registers } address) ∧
      ((∀ registers history address, info.AnswersFirst (info.sessionAfter { registers } history) address) ↔
        info.FirstEverywhere) := by
  have hfresh (registers : RegisterCache) : info.IsFirstHit ({ registers } : Session).recent := nofun
  refine ⟨fun registers address => ⟨_, run_unitNumberCovering address none⟩, fun h => ?_, fun h => ?_⟩
  · intro other number hother address hcovers
    obtain ⟨recent, hanswer⟩ := h {} [.unit other] address
    rw [recent_after_unit hother, run_unitNumberCovering, Option.any_some, if_pos hcovers] at hanswer
    injection hanswer with hfirst
    exact hfirst.symm
  · intro registers history address
    exact answersFirst_of_isFirstHit h (isFirstHit_sessionAfter (hfresh registers) history) address

/-- Where units with code share no address, every answer is that of a fresh index. -/
theorem firstEverywhere_of_disjoint
    (h : ∀ (m n : Nat) (a b : UnitSummary), info.units[m]? = some a → info.units[n]? = some b →
      a.isTypeUnit = false → b.isTypeUnit = false →
        ∀ address, a.ranges.contains address → b.ranges.contains address → m = n) :
    info.FirstEverywhere := by
  intro other number hother address hcovers
  unfold firstUnitCovering at hother ⊢
  obtain ⟨hnumber, hunit, -⟩ := Array.findIdx?_eq_some_iff_getElem.mp hother
  simp only [Bool.and_eq_true, Bool.not_eq_true'] at hunit
  unfold unitCovers at hcovers
  rw [Array.getElem?_eq_getElem hnumber, Option.any_some] at hcovers
  rw [Array.findIdx?_eq_some_iff_getElem]
  refine ⟨hnumber, ?_, fun earlier hlt hcovered => ?_⟩
  · rw [hunit.1, hcovers]
    rfl
  · simp only [Bool.and_eq_true, Bool.not_eq_true'] at hcovered
    have hsame := h earlier number _ _ (Array.getElem?_eq_getElem (by omega))
      (Array.getElem?_eq_getElem hnumber) hcovered.1 hunit.1 address hcovered.2 hcovers
    omega

/-- Two units; the second one begins inside the first. -/
def sharedCode : Sections where
  info := #[16, 0, 0, 0, 4, 0, 0, 0, 0, 0, 4, 1, 0, 0x10, 0, 0, 0, 2, 0, 0,
    16, 0, 0, 0, 4, 0, 0, 0, 0, 0, 4, 1, 0, 0x11, 0, 0, 0, 2, 0, 0]
  abbreviations := #[1, 0x11, 0, 0x11, 1, 0x12, 6, 0, 0, 0]

theorem units_sharedCode : (build sharedCode).toOption.map (fun info =>
    (info.firstUnitCovering 0x1250, info.firstUnitCovering 0x1150, info.unitCovers 0x1150 1)) =
      some (some 1, some 0, true) := by
  decide +kernel

theorem not_answersFirst_sharedCode : ∃ info, build sharedCode = .ok info ∧
    ¬ info.AnswersFirst (info.sessionAfter {} [.unit 0x1250]) 0x1150 := by
  have hunits := units_sharedCode
  cases hbuild : build sharedCode with
  | error e =>
    rw [hbuild] at hunits
    cases hunits
  | ok info =>
    rw [hbuild] at hunits
    simp only [Except.toOption, Option.map_some, Option.some.injEq, Prod.mk.injEq] at hunits
    obtain ⟨hother, hfirst, hcovers⟩ := hunits
    refine ⟨info, rfl, ?_⟩
    rintro ⟨recent, hanswer⟩
    rw [recent_after_unit hother, run_unitNumberCovering, Option.any_some, if_pos hcovers, hfirst] at hanswer
    cases hanswer

end DebugInfo

end FirmwareDebug
