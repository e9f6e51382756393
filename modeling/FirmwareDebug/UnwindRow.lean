import FirmwareDebug.Registers

/-!
# Unwind rows

An unwind row says how the registers of the caller are found from those of a function that was
stopped at some address.
-/

namespace FirmwareDebug

/-- How a register of the caller is found. -/
inductive RegisterRule
  | undefined
  /-- The function did not change it. -/
  | sameValue
  /-- Saved at the frame address plus an offset. -/
  | offset (offset : Int32)
  /-- The frame address plus an offset. -/
  | valueOffset (offset : Int32)
  /-- Held in another register. -/
  | register (source : UInt32)
  deriving DecidableEq, Repr

/-- The canonical frame address as a register plus an offset. -/
structure CfaRule where
  register : UInt32
  offset : Int32
  deriving DecidableEq, Repr

/-- The rules in force at one address. -/
structure UnwindRow where
  cfa : Option CfaRule := none
  rules : Vector RegisterRule 16 := .replicate 16 .sameValue
  returnAddressRegister : UInt32 := RegisterFrame.lrNumber
  deriving DecidableEq

namespace UnwindRow

/-- The rule for a register; there is none for registers that are not tracked. -/
def rule (row : UnwindRow) (register : UInt32) : RegisterRule :=
  row.rules[register.toNat]?.getD .undefined

/-- Change the rule for a register; registers that are not tracked have none to change. -/
def setRule (row : UnwindRow) (register : UInt32) (rule : RegisterRule) : UnwindRow :=
  { row with rules := row.rules.setIfInBounds register.toNat rule }

end UnwindRow

/-- The state of a call frame program: it stops where its location would pass the target address. -/
structure Unwinding where
  location : UInt32
  target : UInt32
  row : UnwindRow := {}
  /-- The row that `restore` goes back to. -/
  initial : Option UnwindRow := none
  remembered : List UnwindRow := []
  deriving DecidableEq

namespace Unwinding

def moveTo (state : Unwinding) (location : UInt32) : Option Unwinding :=
  if state.target < location then none else some { state with location }

def mapRow (state : Unwinding) (f : UnwindRow → UnwindRow) : Unwinding := { state with row := f state.row }

/-- The state after a word, or nothing once the target address would be passed. -/
def step (state : Unwinding) : FrameWord → Except Fault (Option Unwinding)
  | .returnAddressRegister register =>
    return some (state.mapRow ({ · with returnAddressRegister := register }))
  | .initialEnd => return some { state with initial := some state.row }
  | .setLocation address => return state.moveTo address
  | .advance delta => return state.moveTo (state.location + delta)
  | .defCfa register offset => return some (state.mapRow ({ · with cfa := some ⟨register, offset⟩ }))
  | .defCfaRegister register =>
    let offset := (state.row.cfa.map CfaRule.offset).getD 0
    return some (state.mapRow ({ · with cfa := some ⟨register, offset⟩ }))
  | .defCfaOffset offset =>
    let register := (state.row.cfa.map CfaRule.register).getD RegisterFrame.spNumber
    return some (state.mapRow ({ · with cfa := some ⟨register, offset⟩ }))
  | .offset register offset => return some (state.mapRow (·.setRule register (.offset offset)))
  | .valueOffset register offset => return some (state.mapRow (·.setRule register (.valueOffset offset)))
  | .copied register source => return some (state.mapRow (·.setRule register (.register source)))
  | .undefined register => return some (state.mapRow (·.setRule register .undefined))
  | .sameValue register => return some (state.mapRow (·.setRule register .sameValue))
  | .restore register =>
    let rule := (state.initial.map (·.rule register)).getD .sameValue
    return some (state.mapRow (·.setRule register rule))
  | .rememberState => return some { state with remembered := state.row :: state.remembered }
  | .restoreState =>
    match state.remembered with
    | [] => throw (.stackUnderflow (.operand (.frame .restoreState)))
    | row :: remembered => return some { state with row, remembered }

end Unwinding

end FirmwareDebug
