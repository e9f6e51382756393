import FirmwareDebug.Evaluate
import FirmwareDebug.SourceLine

/-!
# Backtraces

Walks the stack of a stopped target from the innermost frame outwards. A caller's registers come
from call frame information where the code is described, and else from the frame that the processor
saved when it took an exception.
-/

namespace FirmwareDebug

/-- How the registers of a frame were found. -/
inductive FrameStatus
  /-- Read from the target. -/
  | current
  /-- By call frame information. -/
  | complete
  /-- By the frame that the processor saved. -/
  | exception
  deriving DecidableEq, Repr

/-- One frame of a backtrace. -/
structure BacktraceFrame where
  number : Nat
  pc : UInt32
  sp : UInt32
  function : Option String
  /-- The inlined functions at the address, the innermost first. -/
  inlined : List String
  sourceLine : Option SourceLine
  status : FrameStatus
  deriving DecidableEq, Repr

/-- The address that a frame is looked up at; values that stand for an exception's return stay. -/
def RegisterFrame.lookupAddress (frame : RegisterFrame) (number : Nat) : UInt32 :=
  if frame.isExceptionReturn then frame.pc else FirmwareDebug.lookupAddress number frame.pc

namespace DebugInfo

open Evaluation

def describeFrame (info : DebugInfo) (number : Nat) (frame : RegisterFrame) (status : FrameStatus) :
    Query BacktraceFrame := do
  let pc := frame.lookupAddress number
  let context ← info.contextAt pc
  let function ← match context.function? with
    | some entry => liftExcept (info.nameOf entry.offset)
    | none => pure none
  let inlined ← liftExcept (context.inlined.mapM fun entry => do
    return (← info.nameOf entry.offset).getD "??")
  let sourceLine ← info.sourceLineOf pc
  return { number, pc := frame.pc, sp := frame.sp, function, inlined, sourceLine, status }

/-- The registers of a frame's caller by the rules that are there for its code. -/
def callerByRules (frame : RegisterFrame) (target : Target) :
    Option (Program × UInt32) → Except Fault (Option RegisterFrame)
  | some (program, start) => frame.callerByProgram target program start
  | none => frame.callerByException target

/-- The registers of a frame's caller. Data that cannot be had ends the walk. -/
def callerOf (info : DebugInfo) (target : Target) (number : Nat) (frame : RegisterFrame) :
    Except Fault (Option (RegisterFrame × FrameStatus)) := do
  let rules ← info.frames.programAt (frame.lookupAddress number)
  let status := if frame.isExceptionReturn then .exception else .complete
  match callerByRules frame target rules with
  | .ok caller => return caller.map fun caller => (caller, status)
  | .error e => if e.isUnavailable then return none else throw e

/-- Whether the walk goes on to a caller: it has an address and is not the frame itself. -/
def goesOn (frame caller : RegisterFrame) : Bool :=
  caller.pc ≠ 0 && !(caller.pc = frame.pc && caller.sp = frame.sp)

/-- The frames from one on; `budget` is how many there may be. -/
def walk (info : DebugInfo) (target : Target) : (budget : Nat) → (number : Nat) → RegisterFrame →
    FrameStatus → Evaluation (List BacktraceFrame)
  | 0, _, _, _ => return []
  | budget + 1, number, frame, status => do
    let described ← query (info.describeFrame number frame status)
    if budget = 0 then return [described]
    match ← liftExcept (info.callerOf target number frame) with
    | none => return [described]
    | some (caller, callerStatus) =>
      if goesOn frame caller then
        modify fun s => { s with registers := s.registers.push caller }
        return described :: (← info.walk target budget (number + 1) caller callerStatus)
      else return [described]

/-- The frames of a stopped target, `limit` at most but at least one. Their registers are kept. -/
def backtrace (info : DebugInfo) (target : Target) (limit : Nat) : Evaluation (List BacktraceFrame) := do
  modify fun s => { s with registers := {} }
  let frame ← liftExcept target.readRegisters
  modify fun s => { s with registers := .ofFrame frame }
  info.walk target (max limit 1) 0 frame .current

end DebugInfo

end FirmwareDebug
