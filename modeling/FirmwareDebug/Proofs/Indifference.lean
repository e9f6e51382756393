import FirmwareDebug.Backtrace
import FirmwareDebug.Proofs.EntryValue

/-!
# Queries begun with another unit found last

Queries look at the unit found last only to find the unit of an address. So a relation of such units that
those searches respect is respected by all that is asked of them, down to the places of objects.
-/

namespace FirmwareDebug

variable {R : Option Nat → Option Nat → Prop}

/-- Begun with either of two related units found last, the query ends alike. -/
def Indifferent {α : Type} (R : Option Nat → Option Nat → Prop) (q : Query α) : Prop := Alike R (fun _ => True) q q

theorem indifferent_result {α : Type} (x : Except Fault α) :
    Indifferent R (liftExcept x : Query α) := .liftExcept fun _ _ => trivial

/-! ## Questions about addresses -/

namespace DebugInfo

variable {info : DebugInfo} (hunit : ∀ address, Indifferent R (info.unitNumberCovering address))
include hunit

theorem indifferent_unitCovering (address : UInt32) : Indifferent R (info.unitCovering address) :=
  (hunit address).bind fun _ => .pure _

theorem indifferent_contextAt (pc : UInt32) : Indifferent R (info.contextAt pc) := by
  refine (indifferent_unitCovering hunit pc).bind fun unit => ?_
  cases unit with
  | none => exact .pure _
  | some unit => exact indifferent_result _

theorem indifferent_callReturningTo (address : UInt32) : Indifferent R (info.callReturningTo address) :=
  (indifferent_contextAt hunit _).bind fun _ => indifferent_result _

theorem indifferent_sourceLineOf (address : UInt32) : Indifferent R (info.sourceLineOf address) := by
  refine (indifferent_unitCovering hunit address).bind fun unit => ?_
  cases unit with
  | none => exact .pure _
  | some unit => exact indifferent_result _

theorem indifferent_describeFrame (number : Nat) (frame : RegisterFrame) (status : FrameStatus) :
    Indifferent R (info.describeFrame number frame status) := by
  refine (indifferent_contextAt hunit _).bind fun context => ?_
  have hrest (function : Option String) : Indifferent R (do
      let inlined ← liftExcept (context.inlined.mapM fun entry => do
        return (← info.nameOf entry.offset).getD "??")
      let sourceLine ← info.sourceLineOf (frame.lookupAddress number)
      return { number, pc := frame.pc, sp := frame.sp, function, inlined, sourceLine, status }
        : Query BacktraceFrame) :=
    (indifferent_result _).bind fun _ => (indifferent_sourceLineOf hunit _).bind fun _ => .pure _
  dsimp only
  split
  · exact (indifferent_result _).bind hrest
  · exact Alike.bind (.pure _) hrest

end DebugInfo

namespace Fixed

variable {registers : UInt32 → Except Fault UInt32} {host other : Host (Option Nat)} {cfa : Option UInt32}
  {program : Program}

/-! ## Programs -/

theorem exists_runOn {M : Machine → Machine → Prop} (related : Machine.Related M)
    (hhost : host.Alike R (fun _ => True) other)
    (hbase : ∀ offset, .frameBase offset ∈ program → ∀ m n, M m n → m.frameBase = n.frameBase)
    {m n : Machine} (hmn : M m n) {r t : Option Nat} (hrt : R r t) :
    ∃ outcome m' n' r' t', runOn host program m r = .ok (outcome, m') r' ∧
      runOn other program n t = .ok (outcome, n') t' ∧ M m' n' ∧ R r' t' := by
  have hend := Run.alikeOn_words related hhost none program hbase (m, r) (n, t) ⟨hmn, hrt⟩
  unfold runOn Run.program
  obtain ⟨_, _, _, hrun, hother, hlast⟩ | ⟨e, _, _, hrun, hother, -, hlast⟩ := hend.cases
  · rw [hrun, hother]
    exact ⟨_, _, _, _, _, rfl, rfl, hlast⟩
  · rw [hrun, hother]
    exact ⟨_, _, _, _, _, rfl, rfl, hlast⟩

theorem alike_runOn (hhost : host.Alike R (fun _ => True) other) (program : Program) (m : Machine) :
    Alike R (fun _ => True) (runOn host program m) (runOn other program m) := by
  intro r t hrt
  obtain ⟨outcome, _, _, _, _, hrun, hother, rfl, hlast⟩ :=
    exists_runOn Machine.related_eq hhost (fun _ _ _ _ => congrArg _) (rfl : m = m) hrt
  rw [hrun, hother]
  exact ⟨rfl, hlast⟩

/-! ## Places -/

theorem indifferent_ifAvailable {α : Type} {q : Query α} (h : Indifferent R q) : Indifferent R (ifAvailable q) := by
  intro r t hrt
  unfold ifAvailable
  obtain ⟨a, _, _, hr, ht, hlast⟩ | ⟨e, _, _, hr, ht, -, hlast⟩ := (h r t hrt).cases
  · rw [hr, ht]
    exact ⟨rfl, hlast⟩
  · rw [hr, ht]
    dsimp only
    split
    · exact ⟨rfl, hlast⟩
    · exact ⟨⟨rfl, trivial⟩, hlast⟩

theorem indifferent_valueOf (otherwise : Location → Fault) (place : Location) :
    Indifferent R (valueOf registers otherwise place) := by
  cases place with
  | register number => exact indifferent_result _
  | constant value => exact .pure value
  | memory address => exact .pure address
  | invalid => exact .throw trivial
  | composite pieces => exact .throw trivial

theorem alike_host {target : Target} {entryValue : List UInt8 → Query UInt32}
    (h : ∀ block, Indifferent R (entryValue block)) :
    (Fixed.host registers target entryValue).Alike R (fun _ => True) (Fixed.host registers target entryValue) where
  readMemory _ _ := indifferent_result _
  readRegister number := by
    unfold Fixed.host
    dsimp only
    split
    · exact .throw trivial
    · exact indifferent_result _
  entryValue := h

section

variable (hhost : host.Alike R (fun _ => True) host)
include hhost

theorem indifferent_readyMachine (frameBase : Option Program) :
    Indifferent R (readyMachine registers host cfa frameBase) := by
  cases frameBase with
  | none => exact .pure _
  | some program =>
    refine (alike_runOn hhost program { cfa }).bind fun run => ?_
    refine Alike.bind (indifferent_ifAvailable ?_) fun base => .pure _
    exact (indifferent_result _).bind fun _ => indifferent_valueOf _ _

theorem indifferent_locate (frameBase : Option Program) (program : Program) :
    Indifferent R (locate registers host cfa frameBase program) := by
  refine Alike.bind (indifferent_ifAvailable ?_) fun place => .pure _
  refine (indifferent_readyMachine hhost frameBase).bind fun machine => ?_
  exact (alike_runOn hhost program machine).bind fun run => (indifferent_result _).bind fun _ => .pure _

end

section

open DebugInfo

variable {info : DebugInfo} {target : Target} (hunit : ∀ address, Indifferent R (info.unitNumberCovering address))
include hunit

theorem indifferent_callValue {caller : RegisterFrame} {entryValue : List UInt8 → Query UInt32}
    (hentry : ∀ block, Indifferent R (entryValue block)) (parameter : UInt32) (expression : List UInt8) :
    Indifferent R (callValue info target caller cfa entryValue parameter expression) := by
  refine (indifferent_result _).bind fun unit => (indifferent_result _).bind fun program => ?_
  refine (indifferent_contextAt hunit _).bind fun context => (indifferent_result _).bind fun frameBase => ?_
  exact (indifferent_locate (alike_host hentry) frameBase program).bind fun place => indifferent_valueOf _ _

theorem indifferent_entryValue (number : Nat) (callers : List RegisterFrame) (block : List UInt8) :
    Indifferent R (entryValue info target number callers block) := by
  induction callers generalizing number block with
  | nil =>
    unfold entryValue
    cases entryRegister? block with
    | none => exact .throw trivial
    | some register => exact .throw trivial
  | cons caller outer ih =>
    unfold entryValue
    cases entryRegister? block with
    | none => exact .throw trivial
    | some register =>
      refine (indifferent_callReturningTo hunit _).bind fun site => ?_
      cases site with
      | none => exact .throw trivial
      | some site =>
        refine (indifferent_result _).bind fun argument => ?_
        cases argument with
        | none => exact .throw trivial
        | some argument => exact indifferent_callValue hunit (ih _) argument.1 argument.2

theorem indifferent_evaluateLocation (cache : RegisterCache) (frameBase : Option Program) (program : Program) :
    Indifferent R (evaluateLocation info target cache cfa frameBase program) :=
  indifferent_locate (alike_host (indifferent_entryValue hunit _ _)) frameBase program

theorem indifferent_evaluateObject (cache : RegisterCache) (frame : Nat) (object : DataObject) (size : Nat) :
    Indifferent R (evaluateObject info target cache frame object size) := by
  refine (indifferent_result _).bind fun registers => (indifferent_result _).bind fun program => ?_
  cases program with
  | none => exact .pure _
  | some program =>
    refine (indifferent_contextAt hunit _).bind fun context => (indifferent_result _).bind fun frameBase => ?_
    exact (indifferent_evaluateLocation hunit _ frameBase program).bind fun place => .pure _

end

end Fixed

end FirmwareDebug
