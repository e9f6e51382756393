import FirmwareDebug.Machine
import FirmwareDebug.Target

/-!
# The registers of a caller

A caller's registers come from call frame words, or from the frame that the processor saves when an
exception interrupts a program.
-/

namespace FirmwareDebug

/-- A host that reads one frame's registers and the target's memory. -/
def frameHost (frame : RegisterFrame) (target : Target) : Host Unit where
  readMemory address length := liftExcept (target.readBytes address length)
  readRegister register := liftExcept (frame.get? register)
  entryValue _ := throw (.entryValueUnavailable .insideFrameProgram)

def unwindRowAt (program : Program) (start address : UInt32) (host : Host Unit) :
    Except Fault UnwindRow :=
  match Run.program host program ((({} : Machine).primed start address), ()) with
  | .ok _ (machine, _) => .ok machine.unwindRow
  | .error e _ => .error e

namespace RegisterFrame

def recover (frame : RegisterFrame) (target : Target) (cfa : UInt32) (old : UInt32) :
    RegisterRule → Except Fault UInt32
  | .undefined | .sameValue => .ok old
  | .offset offset => target.readWord (cfa + offset.toUInt32)
  | .valueOffset offset => .ok (cfa + offset.toUInt32)
  | .register source => frame.get? source

/-- The registers of the caller by the rules of a row, before stack pointer and program counter. -/
def recoverAll (frame : RegisterFrame) (target : Target) (cfa : UInt32) (row : UnwindRow) :
    Except Fault RegisterFrame := do
  let values ← (List.range 16).mapM fun i =>
    frame.recover target cfa (frame.toList.getD i 0) (row.rule (UInt32.ofNat i))
  return .ofList values

/--
The caller's registers by a row. There is no caller when the row has no frame address or when the
return address is undefined. The frame address is the caller's stack pointer, and its program
counter is the return address without the lowest bit.
-/
def callerByRow (frame : RegisterFrame) (target : Target) (row : UnwindRow) :
    Except Fault (Option RegisterFrame) := do
  match row.cfa with
  | none => return none
  | some rule =>
    if row.rule row.returnAddressRegister = .undefined then return none
    let cfa := (← frame.get? rule.register) + rule.offset.toUInt32
    let caller ← frame.recoverAll target cfa row
    let returnAddress ← caller.get? row.returnAddressRegister
    return some ((caller.put 13 cfa).put 15 (returnAddress &&& ~~~1))

/-- The caller's registers by the call frame program of a function that starts at `start`. -/
def callerByProgram (frame : RegisterFrame) (target : Target) (program : Program) (start : UInt32) :
    Except Fault (Option RegisterFrame) := do
  frame.callerByRow target (← unwindRowAt program start frame.pc (frameHost frame target))

/-- Whether the program counter holds a value that stands for the return from an exception. -/
def isExceptionReturn (frame : RegisterFrame) : Bool := frame.pc &&& 0xffffff00 = 0xffffff00

def exceptionFrameSize (exceptionReturn status : UInt32) : UInt32 :=
  32 + (if exceptionReturn &&& 0x10 = 0 then 72 else 0) + (if status &&& 0x200 ≠ 0 then 4 else 0)

/-- The registers of the interrupted program, from the eight words that the processor saved. -/
def interrupted (frame : RegisterFrame) : List UInt32 → RegisterFrame
  | [r0, r1, r2, r3, r12, lr, pc, status] =>
    let sp := frame.sp + exceptionFrameSize frame.pc status
    let low := (((frame.put 0 r0).put 1 r1).put 2 r2).put 3 r3
    (((low.put 12 r12).put 13 sp).put 14 lr).put 15 (pc &&& ~~~1)
  | _ => frame

/-- The registers of the program that an exception interrupted, if the frame returns from one, by any reader of words. -/
def callerByExceptionWith {m : Type → Type} [Monad m] (frame : RegisterFrame)
    (readWords : UInt32 → Nat → m (List UInt32)) : m (Option RegisterFrame) := do
  if !frame.isExceptionReturn then return none
  return some (frame.interrupted (← readWords frame.sp 8))

def callerByException (frame : RegisterFrame) (target : Target) : Except Fault (Option RegisterFrame) :=
  frame.callerByExceptionWith target.readWords

end RegisterFrame

end FirmwareDebug
