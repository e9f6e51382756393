import FirmwareDebug.Evaluate
import FirmwareDebug.Proofs.Machine

/-!
# Evaluations without an active frame

Evaluations read the registers of whatever frame is active, and entry values make callers active for a
while. Here they are spelled out with no frame being active: each is told its registers, and the entry
values of a frame come from the frames outside of it, one frame further out with each nesting. A
session's evaluations give the same, and leave frames and active frame as they were.
-/

namespace FirmwareDebug

variable {α β : Type}

namespace Fixed

/-- The value, or nothing where data cannot be had. -/
def ifAvailable (q : Query α) : Query (Option α) := fun recent =>
  match q recent with
  | .ok a recent => .ok (some a) recent
  | .error e recent => if e.isUnavailable then .ok none recent else .error e recent

/-- Run a program on a machine, with the machine as it is afterwards. -/
def runOn (host : Host (Option Nat)) (program : Program) (machine : Machine) :
    Query (Except Fault Unit × Machine) := fun recent =>
  match Run.program host program (machine, recent) with
  | .ok _ (machine, recent) => .ok (.ok (), machine) recent
  | .error e (machine, recent) => .ok (.error e, machine) recent

section

variable (registers : UInt32 → Except Fault UInt32)

/-- The value that a place stands for; those of memory stand for their address. -/
def valueOf (otherwise : Location → Fault) : Location → Query UInt32
  | .register number => liftExcept (registers number)
  | .constant value => return value
  | .memory address => return address
  | other => throw (otherwise other)

/-- A host on the target with the given registers and entry values. -/
def host (target : Target) (entryValue : List UInt8 → Query UInt32) : Host (Option Nat) where
  readMemory address length := liftExcept (target.readBytes address length)
  readRegister number :=
    if 16 ≤ number then throw (.registerUnavailable number) else liftExcept (registers number)
  entryValue := entryValue

variable (host : Host (Option Nat)) (cfa : Option UInt32)

/-- A machine that knows the frame base. -/
def readyMachine : (frameBase : Option Program) → Query Machine
  | none => return { cfa }
  | some program => do
    let (outcome, machine) ← runOn host program { cfa }
    let base ← ifAvailable do
      liftExcept outcome
      valueOf registers (fun other => .evaluation (.frameBase other)) machine.location
    return { machine.reset with frameBase := base }

/-- The place that a location program gives. -/
def locate (frameBase : Option Program) (program : Program) : Query Location := do
  let location ← ifAvailable do
    let (outcome, machine) ← runOn host program (← readyMachine registers host cfa frameBase)
    liftExcept outcome
    return machine.location
  return location.getD .invalid

end

/-- The value of an argument as its caller computes it, with the registers of the caller. -/
def callValue (info : DebugInfo) (target : Target) (caller : RegisterFrame) (cfa : Option UInt32)
    (entryValue : List UInt8 → Query UInt32) (parameter : UInt32) (expression : List UInt8) :
    Query UInt32 := do
  let unit ← liftExcept (info.unitAt parameter)
  let program ← liftExcept (Expression.compile info .strict unit.header.offset expression)
  let context ← info.contextAt (caller.pc - 1)
  let frameBase ← liftExcept (info.frameBaseProgram context (caller.pc - 1))
  let location ← locate caller.get? (host caller.get? target entryValue) cfa frameBase program
  valueOf caller.get? (fun other => .entryValueUnavailable (.callValue other)) location

/--
The value that a register had when a frame was called. The frames outside of it are `callers`, its own
caller first; that one has the number `number`.
-/
def entryValue (info : DebugInfo) (target : Target) :
    (number : Nat) → (callers : List RegisterFrame) → List UInt8 → Query UInt32
  | number, [], block =>
    match entryRegister? block with
    | none => throw (.entryValueUnavailable (.notARegister block))
    | some _ => throw (.frameUnavailable number)
  | number, caller :: outer, block =>
    match entryRegister? block with
    | none => throw (.entryValueUnavailable (.notARegister block))
    | some register => do
      match ← info.callReturningTo caller.pc with
      | none => throw (.entryValueUnavailable (.noCallSite caller.pc))
      | some site =>
        match ← liftExcept (do info.argumentIn register (← info.childrenOf site.offset)) with
        | none => throw (.entryValueUnavailable (.noCallValue site.offset register))
        | some (parameter, expression) =>
          callValue info target caller (outer.head?.map RegisterFrame.sp)
            (entryValue info target (number + 1) outer) parameter expression

/-- The entry values that are seen from a frame: those of the frames behind it. -/
def entryValueBehind (info : DebugInfo) (target : Target) (frames : List RegisterFrame) (frame : Nat) :
    List UInt8 → Query UInt32 :=
  entryValue info target (frame + 1) (frames.drop (frame + 1))

/-- The place that a location program gives in one of the frames. -/
def evaluateLocation (info : DebugInfo) (target : Target) (cache : RegisterCache) (cfa : Option UInt32)
    (frameBase : Option Program) (program : Program) : Query Location :=
  locate cache.register (host cache.register target (entryValueBehind info target cache.frames cache.active))
    cfa frameBase program

/-- The place and the bytes of an object as seen by a frame. -/
def evaluateObject (info : DebugInfo) (target : Target) (cache : RegisterCache) (frame : Nat)
    (object : DataObject) (size : Nat) : Query (Location × List (Option UInt8)) := do
  let pc := lookupAddress frame (← liftExcept (cache.frame frame)).pc
  match ← liftExcept (info.objectProgram object pc) with
  | none => return (.invalid, List.replicate size none)
  | some program =>
    let context ← info.contextAt pc
    let frameBase ← liftExcept (info.frameBaseProgram context pc)
    let entered := { cache with active := frame }
    let location ← evaluateLocation info target entered (cache.cfa frame) frameBase program
    return (location, fetch target entered size location)

end Fixed

/-- The session has these frames, and remembers the same unit as a query. -/
def Holds (cache : RegisterCache) (s : Session) (recent : Option Nat) : Prop :=
  s.registers = cache ∧ s.recent = recent

/-- With these frames the evaluation gives what the query gives, and the frames stay. -/
def AsQuery (cache : RegisterCache) (run : Evaluation α) (q : Query α) : Prop :=
  Alike (Holds cache) (fun _ => True) run q

/-- Whatever the frames are and however the evaluation ends, frames and active frame are as before. -/
def LeavesRegisters (run : Evaluation α) : Prop :=
  ∀ cache, Keeps (fun s : Session => s.registers = cache) (fun _ => True) run

namespace AsQuery

variable {cache : RegisterCache} {run : Evaluation α} {q : Query α}

theorem run_eq (h : AsQuery cache run q) {s : Session} (hs : s.registers = cache) :
    run s = Evaluation.query q s := by
  unfold Evaluation.query
  obtain ⟨a, s', _, hrun, hq, hs', rfl⟩ | ⟨e, s', _, hrun, hq, -, hs', rfl⟩ := (h s s.recent ⟨hs, rfl⟩).cases
  · rw [hrun, hq, hs, ← hs']
  · rw [hrun, hq, hs, ← hs']

theorem keeps (h : AsQuery cache run q) : Keeps (fun s : Session => s.registers = cache) (fun _ => True) run := by
  intro s hs
  rw [h.run_eq hs]
  unfold Evaluation.query
  cases q s.recent with
  | ok a recent => exact hs
  | error e recent => exact ⟨hs, trivial⟩

theorem bind {f : α → Evaluation β} {g : α → Query β} (h : AsQuery cache run q)
    (hf : ∀ a, AsQuery cache (f a) (g a)) : AsQuery cache (run >>= f) (q >>= g) :=
  Alike.bind h hf

theorem pure (a : α) : AsQuery cache (pure a) (pure a) := Alike.pure a

theorem throw (e : Fault) : AsQuery cache (throw e : Evaluation α) (throw e) := Alike.throw trivial

theorem result (x : Except Fault α) : AsQuery cache (liftExcept x) (liftExcept x) :=
  Alike.liftExcept fun _ _ => trivial

theorem query (q : Query α) : AsQuery cache (Evaluation.query q) q := by
  rintro s _ ⟨hs, rfl⟩
  unfold Evaluation.query
  cases q s.recent with
  | ok a recent => exact ⟨rfl, hs, rfl⟩
  | error e recent => exact ⟨⟨rfl, trivial⟩, hs, rfl⟩

theorem registers {f : RegisterCache → Evaluation α} (h : AsQuery cache (f cache) q) :
    AsQuery cache (Evaluation.registers >>= f) q := by
  rintro s recent ⟨rfl, hs⟩
  exact h s recent ⟨rfl, hs⟩

theorem register (number : UInt32) :
    AsQuery cache (Evaluation.register number) (liftExcept (cache.register number)) :=
  registers (result _)

theorem withFrame {index : Nat} (hindex : index < cache.frames.length)
    (h : AsQuery { cache with active := index } run q) : AsQuery cache (Evaluation.withFrame index run) q := by
  rintro s recent ⟨rfl, hs⟩
  unfold Evaluation.withFrame RegisterCache.setActive
  rw [if_pos hindex]
  dsimp only
  obtain ⟨a, inner, last, hrun, hq, hinner, hlast⟩ | ⟨e, inner, last, hrun, hq, he, hinner, hlast⟩ :=
    (h { s with registers := { s.registers with active := index } } recent ⟨rfl, hs⟩).cases
  · rw [hrun, hq]
    exact ⟨rfl, by simp only [hinner], hlast⟩
  · rw [hrun, hq]
    exact ⟨⟨rfl, he⟩, by simp only [hinner], hlast⟩

theorem ifAvailable (h : AsQuery cache run q) :
    AsQuery cache (Evaluation.ifAvailable run) (Fixed.ifAvailable q) := by
  intro s recent hs
  unfold Evaluation.ifAvailable Fixed.ifAvailable
  obtain ⟨a, _, _, hrun, hq, hlast⟩ | ⟨e, _, _, hrun, hq, -, hlast⟩ := (h s recent hs).cases
  · rw [hrun, hq]
    exact ⟨rfl, hlast⟩
  · rw [hrun, hq]
    dsimp only
    split
    · exact ⟨rfl, hlast⟩
    · exact ⟨⟨rfl, trivial⟩, hlast⟩

end AsQuery

namespace DebugInfo

variable {info : DebugInfo} {target : Target} {cache : RegisterCache}

section

variable {host : Host Session} {fixed : Host (Option Nat)} {registers : UInt32 → Except Fault UInt32}
  (hhost : host.Alike (Holds cache) (fun _ => True) fixed) (hregisters : cache.register = registers)

include hhost in
theorem asQuery_runOn (program : Program) (machine : Machine) :
    AsQuery cache (runOn host program machine) (Fixed.runOn fixed program machine) := by
  intro s recent hs
  have hend := Run.alike_words hhost none program (machine, s) (machine, recent) ⟨rfl, hs⟩
  unfold runOn Fixed.runOn Run.program
  obtain ⟨_, _, _, hrun, hfixed, hmachine, hlast⟩ | ⟨e, _, _, hrun, hfixed, -, hmachine, hlast⟩ := hend.cases
  · rw [hrun, hfixed]
    exact ⟨by rw [hmachine], hlast⟩
  · rw [hrun, hfixed]
    exact ⟨by rw [hmachine], hlast⟩

include hregisters in
theorem asQuery_frameBaseValue (location : Location) :
    AsQuery cache (frameBaseValue location)
      (Fixed.valueOf registers (fun other => .evaluation (.frameBase other)) location) := by
  subst hregisters
  cases location with
  | register number => exact .register number
  | constant value => exact .pure value
  | memory address => exact .pure address
  | invalid => exact .throw _
  | composite pieces => exact .throw _

include hhost hregisters in
theorem asQuery_readyMachine (cfa : Option UInt32) (frameBase : Option Program) :
    AsQuery cache (readyMachine host cfa frameBase) (Fixed.readyMachine registers fixed cfa frameBase) := by
  cases frameBase with
  | none => exact .pure _
  | some program =>
    unfold readyMachine frameBaseOn Fixed.readyMachine
    simp only [bind_assoc, pure_bind]
    refine (asQuery_runOn hhost program { cfa }).bind fun run => ?_
    refine AsQuery.bind (.ifAvailable ?_) fun base => .pure _
    exact (AsQuery.result _).bind fun _ => asQuery_frameBaseValue hregisters _

include hhost hregisters in
theorem asQuery_locate (cfa : Option UInt32) (frameBase : Option Program) (program : Program) :
    AsQuery cache (locate host cfa frameBase program)
      (Fixed.locate registers fixed cfa frameBase program) := by
  refine AsQuery.bind (.ifAvailable ?_) fun location => .pure _
  refine (asQuery_readyMachine hhost hregisters cfa frameBase).bind fun machine => ?_
  exact (asQuery_runOn hhost program machine).bind fun run => (AsQuery.result _).bind fun _ => .pure _

end

/-- A host reads what is fixed: the memory, the registers of the active frame, and these entry values. -/
def HostFixed (target : Target) (cache : RegisterCache) (host : Host Session)
    (entryValue : List UInt8 → Query UInt32) : Prop :=
  host.Alike (Holds cache) (fun _ => True) (Fixed.host cache.register target entryValue)

theorem asQuery_hostRegister (number : UInt32) : AsQuery cache (hostRegister number)
    (if 16 ≤ number then throw (.registerUnavailable number) else liftExcept (cache.register number)) := by
  unfold hostRegister
  split
  · exact .throw _
  · exact .register number

theorem register_of_getElem? {frame : RegisterFrame} (h : cache.frames[cache.active]? = some frame) :
    cache.register = frame.get? := by
  funext number
  unfold RegisterCache.register RegisterCache.activeFrame RegisterCache.frame
  rw [h]
  rfl

theorem asQuery_callValue {host : Host Session} {entryValue : List UInt8 → Query UInt32} {number : Nat}
    {caller : RegisterFrame} (hcaller : cache.frames[number]? = some caller)
    (hhost : HostFixed target { cache with active := number } host entryValue)
    (parameter : UInt32) (expression : List UInt8) :
    AsQuery cache (info.callValue host number caller.pc parameter expression)
      (Fixed.callValue info target caller (cache.cfa number) entryValue parameter expression) := by
  have hregister : RegisterCache.register { cache with active := number } = caller.get? :=
    register_of_getElem? hcaller
  obtain ⟨hnumber, -⟩ := List.getElem?_eq_some_iff.mp hcaller
  unfold HostFixed at hhost
  rw [hregister] at hhost
  refine (AsQuery.result _).bind fun unit => (AsQuery.result _).bind fun program => ?_
  refine (AsQuery.query _).bind fun context => (AsQuery.result _).bind fun frameBase => ?_
  refine .registers (.withFrame hnumber ?_)
  refine (asQuery_locate hhost hregister _ frameBase program).bind fun location => ?_
  cases location with
  | register wanted =>
    rw [← hregister]
    exact .register wanted
  | constant value => exact .pure value
  | memory address => exact .pure address
  | invalid => exact .throw _
  | composite pieces => exact .throw _

theorem asQuery_entryValueWith {host : Host Session}
    (hhost : cache.active + 1 < cache.frames.length →
      HostFixed target { cache with active := cache.active + 1 } host
        (Fixed.entryValueBehind info target cache.frames (cache.active + 1)))
    (block : List UInt8) :
    AsQuery cache (info.entryValueWith host block)
      (Fixed.entryValueBehind info target cache.frames cache.active block) := by
  unfold entryValueWith Fixed.entryValueBehind
  cases hcaller : cache.frames[cache.active + 1]? with
  | none =>
    rw [List.drop_eq_nil_of_le (List.getElem?_eq_none_iff.mp hcaller)]
    unfold Fixed.entryValue
    cases entryRegister? block with
    | none => exact .throw _
    | some number =>
      refine .registers ?_
      have hframe : cache.frame (cache.active + 1) = .error (.frameUnavailable (cache.active + 1)) := by
        unfold RegisterCache.frame
        rw [hcaller]
      dsimp only
      rw [hframe]
      exact .throw _
  | some caller =>
    obtain ⟨hlt, hget⟩ := List.getElem?_eq_some_iff.mp hcaller
    have hframe : cache.frame (cache.active + 1) = .ok caller := by
      unfold RegisterCache.frame
      rw [hcaller]
    rw [List.drop_eq_getElem_cons hlt, hget]
    unfold Fixed.entryValue
    cases entryRegister? block with
    | none => exact .throw _
    | some number =>
      refine .registers ?_
      dsimp only
      rw [hframe]
      refine (AsQuery.query _).bind fun site => ?_
      cases site with
      | none => exact .throw _
      | some site =>
        refine (AsQuery.result _).bind fun argument => ?_
        cases argument with
        | none => exact .throw _
        | some argument =>
          have hcfa : cache.cfa (cache.active + 1) =
              (cache.frames.drop (cache.active + 1 + 1)).head?.map RegisterFrame.sp := by
            rw [List.head?_drop]
            rfl
          rw [← hcfa]
          exact asQuery_callValue hcaller (hhost hlt) argument.1 argument.2

theorem hostFixed_hostFor (callers : Nat) (hcallers : cache.frames.length ≤ cache.active + callers) :
    HostFixed target cache (info.hostFor target (callers + 1))
      (Fixed.entryValueBehind info target cache.frames cache.active) := by
  -- Each nesting uses up one caller, and it moves the active frame one further out.
  induction callers generalizing cache with
  | zero =>
    refine ⟨fun _ _ => AsQuery.result _, asQuery_hostRegister, asQuery_entryValueWith fun hlt => ?_⟩
    omega
  | succ callers ih =>
    refine ⟨fun _ _ => AsQuery.result _, asQuery_hostRegister, asQuery_entryValueWith fun hlt => ?_⟩
    have hreaches : cache.frames.length ≤ cache.active + 1 + callers := by omega
    exact ih hreaches

/-! ## Evaluations of a session -/

theorem asQuery_entryValue (block : List UInt8) :
    AsQuery cache (info.entryValue target block)
      (Fixed.entryValueBehind info target cache.frames cache.active block) := by
  refine .registers (asQuery_entryValueWith (fun _ => hostFixed_hostFor _ ?_) block)
  dsimp only
  omega

theorem asQuery_evaluateLocation (cfa : Option UInt32) (frameBase : Option Program) (program : Program) :
    AsQuery cache (info.evaluateLocation target cfa frameBase program)
      (Fixed.evaluateLocation info target cache cfa frameBase program) :=
  .registers (asQuery_locate (hostFixed_hostFor _ (Nat.le_add_left _ _)) rfl cfa frameBase program)

theorem asQuery_evaluateObject (frame : Nat) (object : DataObject) (size : Nat) :
    AsQuery cache (info.evaluateObject target frame object size)
      (Fixed.evaluateObject info target cache frame object size) := by
  refine .registers ?_
  unfold Fixed.evaluateObject
  cases hframe : cache.frame frame with
  | error e => exact .throw e
  | ok _ =>
    have hindex : frame < cache.frames.length := by
      unfold RegisterCache.frame at hframe
      split at hframe
      case h_1 hget => exact (List.getElem?_eq_some_iff.mp hget).1
      case h_2 => cases hframe
    refine (AsQuery.result _).bind fun registers => (AsQuery.result _).bind fun program => ?_
    cases program with
    | none => exact .pure _
    | some program =>
      refine (AsQuery.query _).bind fun context => (AsQuery.result _).bind fun frameBase => ?_
      refine .withFrame hindex ?_
      refine (asQuery_evaluateLocation _ frameBase program).bind fun location => ?_
      exact .registers (.pure _)

/--
What evaluations do with the frames of a session: they leave them as they are, and read those that the
evaluations without an active frame read.
-/
structure LeavesFrames (info : DebugInfo) (target : Target) : Prop where
  location_leaves : ∀ cfa frameBase program,
    LeavesRegisters (info.evaluateLocation target cfa frameBase program)
  object_leaves : ∀ frame object size, LeavesRegisters (info.evaluateObject target frame object size)
  entryValue_leaves : ∀ block, LeavesRegisters (info.entryValue target block)
  location_eq : ∀ cfa frameBase program s,
    info.evaluateLocation target cfa frameBase program s =
      Evaluation.query (Fixed.evaluateLocation info target s.registers cfa frameBase program) s
  object_eq : ∀ frame object size s,
    info.evaluateObject target frame object size s =
      Evaluation.query (Fixed.evaluateObject info target s.registers frame object size) s
  entryValue_eq : ∀ block s,
    info.entryValue target block s =
      Evaluation.query (Fixed.entryValueBehind info target s.registers.frames s.registers.active block) s

/--
Evaluations leave frames and active frame as they were, however they end. Call values are computed with
the registers of the caller, the frame behind the active one, at any depth of nesting.
-/
theorem leavesFrames (info : DebugInfo) (target : Target) : info.LeavesFrames target where
  location_leaves cfa frameBase program _ := (asQuery_evaluateLocation cfa frameBase program).keeps
  object_leaves frame object size _ := (asQuery_evaluateObject frame object size).keeps
  entryValue_leaves block _ := (asQuery_entryValue block).keeps
  location_eq cfa frameBase program _ := (asQuery_evaluateLocation cfa frameBase program).run_eq rfl
  object_eq frame object size _ := (asQuery_evaluateObject frame object size).run_eq rfl
  entryValue_eq block _ := (asQuery_entryValue block).run_eq rfl

end DebugInfo

end FirmwareDebug
