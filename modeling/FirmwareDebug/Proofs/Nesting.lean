import FirmwareDebug.Proofs.EntryValue
import FirmwareDebug.Proofs.Lookup

/-!
# How deep evaluations nest

An entry value is found by an evaluation in the caller's frame, which may ask for entry values in its
turn, and debug information may lead it back to the same expression. Every evaluation is one frame
further out than the one that asked for it, so frames bound the nesting, whatever the information says.
-/

namespace FirmwareDebug

section

variable {σ : Type}

/-! ## What is asked of a host -/

/-- The entry values that were asked for, each with the state that the host had then. -/
abbrev AskedFor (σ : Type) := List (List UInt8 × σ)

def beside {α : Type} (run : EStateM Fault σ α) : EStateM Fault (σ × AskedFor σ) α := fun (s, log) =>
  match run s with
  | .ok a s => .ok a (s, log)
  | .error e s => .error e (s, log)

/-- The host with a list of what it was asked for. -/
def Host.logged (host : Host σ) : Host (σ × AskedFor σ) where
  readMemory address length := beside (host.readMemory address length)
  readRegister register := beside (host.readRegister register)
  entryValue block := fun (s, log) => beside (host.entryValue block) (s, log ++ [(block, s)])

def Host.asked (host : Host σ) (program : Program) (m : Machine) (s : σ) : AskedFor σ :=
  match Run.program host.logged program (m, s, []) with
  | .ok _ (_, _, log) => log
  | .error _ (_, _, log) => log

/-- The same state, and an invariant that held whenever something was asked for. -/
def Logs (Inv : σ → Prop) (s : σ) (t : σ × AskedFor σ) : Prop :=
  t.1 = s ∧ Inv s ∧ ∀ asked ∈ t.2, Inv asked.2

variable {Inv : σ → Prop} {host : Host σ}

theorem alike_beside {α : Type} {run : EStateM Fault σ α} (h : Keeps Inv (fun _ => True) run) :
    Alike (Logs Inv) (fun _ => True) run (beside run) := by
  rintro _ ⟨s, log⟩ ⟨rfl, hs, hlog⟩
  have hrun := h s hs
  show EndAlike _ _ (run s) (match run s with
    | .ok a s => .ok a (s, log)
    | .error e s => .error e (s, log))
  cases hend : run s with
  | ok a s' =>
    rw [hend] at hrun
    exact ⟨rfl, rfl, hrun, hlog⟩
  | error e s' =>
    rw [hend] at hrun
    exact ⟨⟨rfl, trivial⟩, rfl, hrun.1, hlog⟩

theorem alike_logged (h : host.Keeps Inv fun _ => True) : host.Alike (Logs Inv) (fun _ => True) host.logged where
  readMemory address length := alike_beside (h.readMemory address length)
  readRegister register := alike_beside (h.readRegister register)
  entryValue block := by
    rintro _ ⟨s, log⟩ ⟨rfl, hs, hlog⟩
    refine alike_beside (h.entryValue block) s (s, log ++ [(block, s)]) ⟨rfl, hs, fun asked hasked => ?_⟩
    rcases List.mem_append.mp hasked with hold | hnew
    · exact hlog asked hold
    · rw [List.mem_singleton.mp hnew]
      exact hs

theorem inv_of_asked (h : host.Keeps Inv fun _ => True) {program : Program} {m : Machine} {s : σ} (hs : Inv s)
    {asked : List UInt8 × σ} (hasked : asked ∈ host.asked program m s) : Inv asked.2 := by
  have hend := Run.alike_words (alike_logged h) none program (m, s) (m, s, [])
    ⟨rfl, rfl, hs, List.forall_mem_nil _⟩
  unfold Host.asked Run.program at hasked
  obtain ⟨_, _, _, -, hlogged, -, -, -, hlog⟩ | ⟨_, _, _, -, hlogged, -, -, -, -, hlog⟩ := hend.cases
  · rw [hlogged] at hasked
    exact hlog asked hasked
  · rw [hlogged] at hasked
    exact hlog asked hasked

end

namespace DebugInfo

open Evaluation

variable {info : DebugInfo} {target : Target}

/-! ## Hosts without a bound -/

/-- A host on the target that finds entry values with its own help. -/
structure OwnHost (info : DebugInfo) (target : Target) (host : Host Session) : Prop where
  readMemory_eq : ∀ address length, host.readMemory address length = liftExcept (target.readBytes address length)
  readRegister_eq : ∀ number, host.readRegister number = hostRegister number
  entryValue_eq : ∀ block, host.entryValue block = info.entryValueWith host block

/-- The host whose entry values are those of the frames outside of the active one. -/
def outerHost (info : DebugInfo) (target : Target) : Host Session where
  readMemory address length := liftExcept (target.readBytes address length)
  readRegister := hostRegister
  entryValue block := fun s =>
    query (Fixed.entryValueBehind info target s.registers.frames s.registers.active block) s

theorem hostFixed_outerHost (cache : RegisterCache) : HostFixed target cache (info.outerHost target)
    (Fixed.entryValueBehind info target cache.frames cache.active) where
  readMemory _ _ := AsQuery.result _
  readRegister := asQuery_hostRegister
  entryValue block := by
    rintro s recent ⟨rfl, hrecent⟩
    exact AsQuery.query _ s recent ⟨rfl, hrecent⟩

theorem ownHost_outerHost : OwnHost info target (info.outerHost target) where
  readMemory_eq _ _ := rfl
  readRegister_eq _ := rfl
  entryValue_eq block := by
    funext s
    exact ((asQuery_entryValueWith (fun _ => hostFixed_outerHost _) block).run_eq rfl).symm

theorem hostFixed_of_ownHost {host : Host Session} (h : OwnHost info target host) (cache : RegisterCache) :
    HostFixed target cache host (Fixed.entryValueBehind info target cache.frames cache.active) := by
  -- A caller that exists has fewer frames outside of it.
  induction hleft : cache.frames.length - cache.active using Nat.strongRecOn generalizing cache with
  | _ left ih =>
    constructor
    · intro address length
      rw [h.readMemory_eq]
      exact AsQuery.result _
    · intro number
      rw [h.readRegister_eq]
      exact asQuery_hostRegister number
    · intro block
      rw [h.entryValue_eq]
      refine asQuery_entryValueWith (fun hlt => ih _ ?_ _ rfl) block
      dsimp only
      omega

theorem ownHost_unique {host : Host Session} (h : OwnHost info target host) : host = info.outerHost target := by
  obtain ⟨readMemory, readRegister, entryValue⟩ := host
  have hmemory : readMemory = (info.outerHost target).readMemory := by
    funext address length
    exact h.readMemory_eq address length
  have hregister : readRegister = (info.outerHost target).readRegister := by
    funext number
    exact h.readRegister_eq number
  have hentry : entryValue = (info.outerHost target).entryValue := by
    funext block s
    exact AsQuery.run_eq ((hostFixed_of_ownHost h s.registers).entryValue block) rfl
  rw [hmemory, hregister, hentry]

/-! ## Nested evaluations -/

/-- A location program with what it is evaluated with, and the session it is begun in. -/
structure Evaluand where
  cfa : Option UInt32
  frameBase : Option Program
  program : Program
  session : Session

/-- What an entry value is computed from, and the number of the frame to compute it in. -/
structure EntryCall where
  caller : Nat
  cfa : Option UInt32
  frameBase : Option Program
  program : Program

def argumentCall (info : DebugInfo) (caller : Nat) (returnAddress parameter : UInt32) (expression : List UInt8) :
    Evaluation EntryCall := do
  let unit ← liftExcept (info.unitAt parameter)
  let program ← liftExcept (Expression.compile info .strict unit.header.offset expression)
  let pc := returnAddress - 1
  let context ← query (info.contextAt pc)
  let frameBase ← liftExcept (info.frameBaseProgram context pc)
  return ⟨caller, (← registers).cfa caller, frameBase, program⟩

def entryCall (info : DebugInfo) (block : List UInt8) : Evaluation EntryCall := do
  match entryRegister? block with
  | none => throw (.entryValueUnavailable (.notARegister block))
  | some number =>
    let cache ← registers
    let caller := cache.active + 1
    let returnAddress := (← liftExcept (cache.frame caller)).pc
    match ← query (info.callReturningTo returnAddress) with
    | none => throw (.entryValueUnavailable (.noCallSite returnAddress))
    | some site =>
      match ← liftExcept (do info.argumentIn number (← info.childrenOf site.offset)) with
      | none => throw (.entryValueUnavailable (.noCallValue site.offset number))
      | some (parameter, expression) => info.argumentCall caller returnAddress parameter expression

/-- The caller's frame is active while its program is evaluated. -/
def valueOfCall (host : Host Session) (call : EntryCall) : Evaluation UInt32 :=
  withFrame call.caller do
    match ← locate host call.cfa call.frameBase call.program with
    | .constant value => return value
    | .memory address => return address
    | .register number => register number
    | other => throw (.entryValueUnavailable (.callValue other))

theorem callValue_eq (host : Host Session) (caller : Nat) (returnAddress parameter : UInt32)
    (expression : List UInt8) : info.callValue host caller returnAddress parameter expression =
      info.argumentCall caller returnAddress parameter expression >>= valueOfCall host := by
  unfold callValue argumentCall
  simp only [bind_assoc, pure_bind]
  rfl

/-- An entry value is what one more evaluation gives, after all that leads to it. -/
theorem entryValueWith_eq (host : Host Session) (block : List UInt8) :
    info.entryValueWith host block = info.entryCall block >>= valueOfCall host := by
  unfold entryValueWith entryCall
  cases entryRegister? block with
  | none => rfl
  | some number =>
    simp only [bind_assoc]
    congr 1
    funext cache
    congr 1
    funext frame
    congr 1
    funext site
    cases site with
    | none => rfl
    | some site =>
      simp only [bind_assoc]
      congr 1
      funext argument
      cases argument with
      | none => rfl
      | some argument => exact callValue_eq host _ _ argument.1 argument.2

/-- What an evaluation asks for, first for the frame base and then for itself. -/
def requests (host : Host Session) (e : Evaluand) : AskedFor Session :=
  (match e.frameBase with
    | none => []
    | some program => host.asked program { cfa := e.cfa } e.session) ++
  match readyMachine host e.cfa e.frameBase e.session with
  | .ok machine s => host.asked e.program machine s
  | .error _ _ => []

/-- The evaluation that is begun for an entry value, if it comes to that. -/
def answering (info : DebugInfo) (asked : List UInt8 × Session) : Option Evaluand :=
  match info.entryCall asked.1 asked.2 with
  | .error _ _ => none
  | .ok call s =>
    match s.registers.setActive call.caller with
    | .error _ => none
    | .ok entered => some ⟨call.cfa, call.frameBase, call.program, { s with registers := entered }⟩

/-- The evaluations that an evaluation begins for entry values, without those that they begin. -/
def nestedIn (info : DebugInfo) (host : Host Session) (e : Evaluand) : List Evaluand :=
  (requests host e).filterMap info.answering

/-! ## One frame further out -/

theorem caller_of_argumentCall {caller : Nat} {returnAddress parameter : UInt32} {expression : List UInt8}
    {s s' : Session} {call : EntryCall}
    (h : info.argumentCall caller returnAddress parameter expression s = .ok call s') :
    s'.registers = s.registers ∧ call.caller = caller := by
  simp only [argumentCall, run_bind_eq_ok_iff, run_liftExcept_eq_ok_iff, run_pure_eq_ok_iff] at h
  obtain ⟨_, _, ⟨-, rfl⟩, _, _, ⟨-, rfl⟩, _, _, hcontext, _, _, ⟨-, rfl⟩, cache, _, hcache, rfl, rfl⟩ := h
  cases hcache
  exact ⟨(run_query_eq_ok_iff.mp hcontext).2, rfl⟩

theorem caller_of_entryCall {block : List UInt8} {s s' : Session} {call : EntryCall}
    (h : info.entryCall block s = .ok call s') :
    s'.registers = s.registers ∧ call.caller = s.registers.active + 1 := by
  unfold entryCall at h
  cases hregister : entryRegister? block with
  | none =>
    rw [hregister] at h
    cases h
  | some number =>
    simp only [hregister, run_bind_eq_ok_iff, run_liftExcept_eq_ok_iff] at h
    obtain ⟨cache, s₁, hcache, frame, _, ⟨-, rfl⟩, site, s₂, hsite, h⟩ := h
    cases hcache
    cases site with
    | none => cases h
    | some site =>
      simp only [run_bind_eq_ok_iff, run_liftExcept_eq_ok_iff] at h
      obtain ⟨argument, _, ⟨-, rfl⟩, h⟩ := h
      cases argument with
      | none => cases h
      | some argument =>
        obtain ⟨hregisters, hcaller⟩ := caller_of_argumentCall h
        rw [hregisters, (run_query_eq_ok_iff.mp hsite).2]
        exact ⟨rfl, hcaller⟩

theorem registers_of_answering {asked : List UInt8 × Session} {e : Evaluand} (h : info.answering asked = some e) :
    asked.2.registers.active + 1 < asked.2.registers.frames.length ∧
      e.session.registers = { asked.2.registers with active := asked.2.registers.active + 1 } := by
  unfold answering at h
  split at h
  case h_1 => cases h
  case h_2 call s hcall =>
    obtain ⟨hregisters, hcaller⟩ := caller_of_entryCall hcall
    rw [hregisters, hcaller] at h
    unfold RegisterCache.setActive at h
    split at h
    case h_1 => cases h
    case h_2 entered hentered =>
      cases h
      split at hentered
      · rename_i hlt
        cases hentered
        exact ⟨hlt, rfl⟩
      · cases hentered

theorem keeps_of_hostFixed {host : Host Session} {cache : RegisterCache} {entryValue : List UInt8 → Query UInt32}
    (h : HostFixed target cache host entryValue) :
    host.Keeps (fun s : Session => s.registers = cache) fun _ => True where
  readMemory address length := AsQuery.keeps (h.readMemory address length)
  readRegister number := AsQuery.keeps (h.readRegister number)
  entryValue block := AsQuery.keeps (h.entryValue block)

section

variable {host : Host Session} (hhost : OwnHost info target host)
include hhost

theorem registers_of_requests {e : Evaluand} {asked : List UInt8 × Session} (h : asked ∈ requests host e) :
    asked.2.registers = e.session.registers := by
  have hfixed := hostFixed_of_ownHost hhost e.session.registers
  have hkeeps := keeps_of_hostFixed hfixed
  rcases List.mem_append.mp h with hbase | hprogram
  · cases hframeBase : e.frameBase with
    | none =>
      rw [hframeBase] at hbase
      cases hbase
    | some program =>
      rw [hframeBase] at hbase
      exact inv_of_asked hkeeps rfl hbase
  · have hready := (asQuery_readyMachine hfixed rfl e.cfa e.frameBase).keeps e.session rfl
    cases hrun : readyMachine host e.cfa e.frameBase e.session with
    | error fault s =>
      rw [hrun] at hprogram
      cases hprogram
    | ok machine s =>
      rw [hrun] at hready hprogram
      exact inv_of_asked hkeeps hready hprogram

theorem registers_of_nestedIn {e inner : Evaluand} (h : inner ∈ info.nestedIn host e) :
    e.session.registers.active + 1 < e.session.registers.frames.length ∧
      inner.session.registers = { e.session.registers with active := e.session.registers.active + 1 } := by
  obtain ⟨asked, hasked, hanswer⟩ := List.mem_filterMap.mp h
  rw [← registers_of_requests hhost hasked]
  exact registers_of_answering hanswer

/-- Each step along a row of nested evaluations goes one frame further out. -/
theorem active_add_length {e : Evaluand} {inner : List Evaluand}
    (h : List.IsChain (fun e inner => inner ∈ info.nestedIn host e) (e :: inner)) :
    inner = [] ∨ e.session.registers.active + inner.length < e.session.registers.frames.length := by
  induction inner generalizing e with
  | nil => exact .inl rfl
  | cons next rest ih =>
    obtain ⟨hnext, hrest⟩ := List.isChain_cons_cons.mp h
    obtain ⟨hlt, hregisters⟩ := registers_of_nestedIn hhost hnext
    have hih := ih hrest
    rw [hregisters] at hih
    rw [List.length_cons]
    rcases hih with rfl | hlt'
    · exact .inr hlt
    · dsimp only at hlt'
      exact .inr (by omega)

theorem nestedIn_wellFounded : WellFounded fun inner e => inner ∈ info.nestedIn host e := by
  refine Subrelation.wf (fun {inner e} h => ?_)
    (measure fun e : Evaluand => e.session.registers.frames.length - e.session.registers.active).wf
  obtain ⟨hlt, hregisters⟩ := registers_of_nestedIn hhost h
  show inner.session.registers.frames.length - inner.session.registers.active <
    e.session.registers.frames.length - e.session.registers.active
  rw [hregisters]
  dsimp only
  omega

end

/-! ## The result -/

theorem evaluateLocation_eq {host : Host Session} (h : OwnHost info target host) :
    info.evaluateLocation target = locate host := by
  funext cfa frameBase program s
  have hlocate : AsQuery s.registers (locate host cfa frameBase program)
      (Fixed.evaluateLocation info target s.registers cfa frameBase program) :=
    asQuery_locate (hostFixed_of_ownHost h _) rfl cfa frameBase program
  rw [(asQuery_evaluateLocation cfa frameBase program).run_eq rfl, hlocate.run_eq rfl]

/-- The evaluation of an object with some way to evaluate its location. -/
def evaluateObjectBy (info : DebugInfo) (target : Target)
    (evaluate : Option UInt32 → Option Program → Program → Evaluation Location) (frame : Nat)
    (object : DataObject) (size : Nat) : Evaluation (Location × List (Option UInt8)) := do
  let cache ← registers
  let pc := lookupAddress frame (← liftExcept (cache.frame frame)).pc
  match ← liftExcept (info.objectProgram object pc) with
  | none => return (.invalid, List.replicate size none)
  | some program =>
    let context ← query (info.contextAt pc)
    let frameBase ← liftExcept (info.frameBaseProgram context pc)
    withFrame frame do
      let location ← evaluate (cache.cfa frame) frameBase program
      return (location, fetch target (← registers) size location)

/--
How evaluations nest. What entry values need is the same evaluation again, with no bound on how often;
there is one host that answers so, and evaluations are those with that host. An evaluation begins its
nested ones in the frame behind its own, so it cannot be nested deeper than there are frames, and every
evaluation ends after finitely many others.
-/
structure NestsInFrames (info : DebugInfo) (target : Target) (host : Host Session) : Prop where
  own : info.OwnHost target host
  only : ∀ other, info.OwnHost target other → other = host
  location_eq : info.evaluateLocation target = locate host
  object_eq : info.evaluateObject target = info.evaluateObjectBy target (locate host)
  entryValue_eq : ∀ block, host.entryValue block = info.entryCall block >>= valueOfCall host
  registers_eq : ∀ e, ∀ inner ∈ info.nestedIn host e,
    e.session.registers.active + 1 < e.session.registers.frames.length ∧
      inner.session.registers = { e.session.registers with active := e.session.registers.active + 1 }
  depth_le : ∀ e inner, List.IsChain (fun e inner => inner ∈ info.nestedIn host e) (e :: inner) →
    inner.length ≤ e.session.registers.frames.length - (e.session.registers.active + 1)
  ends : WellFounded fun inner e => inner ∈ info.nestedIn host e

theorem exists_nestsInFrames (info : DebugInfo) (target : Target) : ∃ host, info.NestsInFrames target host := by
  have hown : info.OwnHost target (info.outerHost target) := ownHost_outerHost
  refine ⟨info.outerHost target, hown, fun other h => ownHost_unique h, evaluateLocation_eq hown, ?_, ?_, ?_, ?_, ?_⟩
  · rw [← evaluateLocation_eq hown]
    rfl
  · intro block
    rw [hown.entryValue_eq, entryValueWith_eq]
  · exact fun e inner h => registers_of_nestedIn hown h
  · intro e inner h
    rcases active_add_length hown h with rfl | hlt
    · exact Nat.zero_le _
    · omega
  · exact nestedIn_wellFounded hown

/-- A function that calls itself and passes on its argument, which is in register 0. -/
def passedOn : Sections where
  info := #[41, 0, 0, 0, 4, 0, 0, 0, 0, 0, 4, 1, 0, 1, 0, 0, 0, 2, 0, 0, 2, 0, 1, 0, 0, 0, 1, 0, 0,
    3, 0x10, 1, 0, 0, 4, 1, 0x50, 4, 0xa3, 1, 0x50, 0x9f, 0, 0, 0]
  abbreviations := #[1, 0x11, 1, 0x11, 1, 0x12, 6, 0, 0, 2, 0x2e, 1, 0x11, 1, 0x12, 6, 0, 0,
    3, 0x48, 1, 0x7d, 1, 0, 0, 4, 0x49, 0, 2, 0x18, 0x7e, 0x18, 0, 0, 0]

/-- The argument in the innermost of three frames of the function. -/
def passedOnArgument : Evaluand where
  cfa := none
  frameBase := none
  program := [.entryValue [0x50], .stackValue]
  session := { registers := { frames := [0x104, 0x110, 0x110].map (RegisterFrame.put (Vector.replicate 16 0) 15) } }

def stoppedTarget : Target := Snapshot.target { registers := Vector.replicate 16 0 }

theorem nestedIn_passedOn : (build passedOn).toOption.map (fun info =>
    (info.nestedIn (info.outerHost stoppedTarget) passedOnArgument).map fun inner =>
      (inner.session.registers.active,
        (info.nestedIn (info.outerHost stoppedTarget) inner).map fun innermost =>
          (innermost.session.registers.active,
            (info.nestedIn (info.outerHost stoppedTarget) innermost).isEmpty))) = some [(1, [(2, true)])] := by
  decide +kernel

theorem nestsInFrames_passedOn : ∃ info host inner innermost, build passedOn = .ok info ∧
    info.NestsInFrames stoppedTarget host ∧ inner ∈ info.nestedIn host passedOnArgument ∧
      innermost ∈ info.nestedIn host inner ∧ innermost.session.registers.active = 2 ∧
        info.nestedIn host innermost = [] := by
  obtain ⟨info, hbuild, hnested⟩ := Option.map_eq_some_iff.mp nestedIn_passedOn
  obtain ⟨host, hnests⟩ := exists_nestsInFrames info stoppedTarget
  rw [hnests.only _ ownHost_outerHost] at hnested
  have hinner := List.mem_of_getElem? (congrArg (·[0]?) hnested)
  obtain ⟨inner, hmem, hfacts⟩ := List.mem_map.mp hinner
  obtain ⟨-, hfacts⟩ := Prod.mk.inj hfacts
  have hinnermost := List.mem_of_getElem? (congrArg (·[0]?) hfacts)
  obtain ⟨innermost, hmem', hfacts⟩ := List.mem_map.mp hinnermost
  obtain ⟨hactive, hnone⟩ := Prod.mk.inj hfacts
  exact ⟨info, host, inner, innermost, ok_of_toOption hbuild, hnests, hmem, hmem', hactive, List.isEmpty_iff.mp hnone⟩

end DebugInfo

end FirmwareDebug
