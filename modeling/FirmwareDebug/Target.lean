import FirmwareDebug.Bytes
import FirmwareDebug.Registers

/-!
# Targets

A target is a stopped machine: its memory and registers can be read and do not change meanwhile. A
`Snapshot` is a target that was saved as memory images and registers.
-/

namespace FirmwareDebug

/-- What can be asked of a stopped machine. -/
structure Target where
  /-- As many bytes as asked for, from an address on. -/
  readBytes : UInt32 → Nat → Except Fault (List UInt8)
  readRegister : UInt32 → Except Fault UInt32

namespace Target

def readWord (target : Target) (address : UInt32) : Except Fault UInt32 := do
  let bytes ← target.readBytes address 4
  if bytes.length = 4 then return wordOfBytes bytes else throw (.memoryUnavailable address 4)

def readWords (target : Target) (address : UInt32) : (count : Nat) → Except Fault (List UInt32)
  | 0 => return []
  | count + 1 => do return (← target.readWord address) :: (← target.readWords (address + 4) count)

def readRegisters (target : Target) : Except Fault RegisterFrame := do
  return .ofList (← (List.range 16).mapM fun i => target.readRegister (UInt32.ofNat i))

end Target

/-- What kind of memory a region is. -/
inductive MemoryKind
  | ram | flash
  deriving DecidableEq, Repr

def MemoryKind.text : MemoryKind → String
  | ram => "ram"
  | flash => "flash"

/-- The contents of one region of memory. -/
structure MemoryImage where
  kind : MemoryKind
  base : UInt32
  bytes : Bytes

namespace MemoryImage

/-- The size of the region; it fits a word. -/
def length (image : MemoryImage) : Nat := min image.bytes.size (2 ^ 32 - 1)

def contains (image : MemoryImage) (address : UInt32) (length : Nat) : Bool :=
  image.base ≤ address && address.toNat + length ≤ image.base.toNat + image.length

end MemoryImage

/-- A machine that was saved when it was stopped. -/
structure Snapshot where
  registers : RegisterFrame
  images : List MemoryImage := []

namespace Snapshot

/-- A block of memory, out of the first image that holds all of it. -/
def readBytes (snapshot : Snapshot) (address : UInt32) (length : Nat) : Except Fault (List UInt8) :=
  match snapshot.images.find? fun image => image.contains address length with
  | some image =>
    let start := address.toNat - image.base.toNat
    .ok (image.bytes.extract start (start + length)).toList
  | none => .error (.memoryUnavailable address length)

def target (snapshot : Snapshot) : Target := ⟨snapshot.readBytes, snapshot.registers.get?⟩

def control (_ : Snapshot) (operation : RunControl) : Except Fault Unit :=
  .error (.operationUnsupported operation)

end Snapshot

end FirmwareDebug
