import FirmwareDebug.Fault

/-!
# Registers of frames

A stack of frames has the innermost frame first; the caller of frame `n` is frame `n + 1`. One of
them is active: it is the one whose registers an expression sees.
-/

namespace FirmwareDebug

abbrev RegisterFrame := Vector UInt32 16

namespace RegisterFrame

def get? (frame : RegisterFrame) (register : UInt32) : Except Fault UInt32 :=
  match frame[register.toNat]? with
  | some value => .ok value
  | none => .error (.registerUnavailable register)

def put (frame : RegisterFrame) (register : Nat) (value : UInt32) : RegisterFrame :=
  frame.setIfInBounds register value

@[simp]
theorem get_put (frame : RegisterFrame) (register : Nat) (value : UInt32) (other : Fin 16) :
    (frame.put register value).get other = if register = other then value else frame.get other := by
  show (frame.setIfInBounds register value)[other.val] = if register = other then value else frame[other.val]
  rw [Vector.getElem_setIfInBounds]

theorem sp_lt : 13 < 16 := by decide

def sp (frame : RegisterFrame) : UInt32 := frame.get ⟨13, sp_lt⟩

theorem lr_lt : 14 < 16 := by decide

def lr (frame : RegisterFrame) : UInt32 := frame.get ⟨14, lr_lt⟩

theorem pc_lt : 15 < 16 := by decide

def pc (frame : RegisterFrame) : UInt32 := frame.get ⟨15, pc_lt⟩

def spNumber : UInt32 := 13

def lrNumber : UInt32 := 14

/-- The first 16 of some values; missing ones are zero. -/
def ofList (values : List UInt32) : RegisterFrame := .ofFn fun i => values.getD i 0

end RegisterFrame

/-- The frames unwound so far and the number of the active one. -/
structure RegisterCache where
  frames : List RegisterFrame := []
  active : Nat := 0
  deriving DecidableEq

namespace RegisterCache

def ofFrame (frame : RegisterFrame) : RegisterCache := { frames := [frame] }

def push (cache : RegisterCache) (frame : RegisterFrame) : RegisterCache :=
  { cache with frames := cache.frames ++ [frame] }

def frame (cache : RegisterCache) (index : Nat) : Except Fault RegisterFrame :=
  match cache.frames[index]? with
  | some frame => .ok frame
  | none => .error (.frameUnavailable index)

def setActive (cache : RegisterCache) (index : Nat) : Except Fault RegisterCache :=
  if index < cache.frames.length then .ok { cache with active := index }
  else .error (.frameUnavailable index)

def activeFrame (cache : RegisterCache) : Except Fault RegisterFrame := cache.frame cache.active

def register (cache : RegisterCache) (number : UInt32) : Except Fault UInt32 := do
  (← cache.activeFrame).get? number

/-- The canonical frame address of a frame: the stack pointer that its caller sees. -/
def cfa (cache : RegisterCache) (index : Nat) : Option UInt32 :=
  cache.frames[index + 1]?.map RegisterFrame.sp

end RegisterCache

end FirmwareDebug
