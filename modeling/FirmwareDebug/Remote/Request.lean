import FirmwareDebug.Remote.Packet

/-! # Requests to a debug probe -/

namespace FirmwareDebug.Remote

open Text

/-- What a probe can be asked for. -/
inductive Request
  | readRegisters
  /-- Attach to the first target that the probe found. -/
  | attach
  | memoryMap
  | singleStep
  | resume
  | setBreakpoint (address length : UInt32)
  | removeBreakpoint (address length : UInt32)
  /-- A command for the probe itself. -/
  | monitor (command : String)
  | readMemory (address length : UInt32)
  deriving DecidableEq, Repr

namespace Request

def memoryMapLength : Nat := 0x400

def text : Request → String
  | readRegisters => "g"
  | attach => "vAttach;1"
  | memoryMap => "qXfer:memory-map:read::0," ++ hex memoryMapLength
  | singleStep => "s"
  | resume => "c"
  | setBreakpoint address length => "Z1," ++ hex address.toNat ++ "," ++ toString length.toNat
  | removeBreakpoint address length => "z1," ++ hex address.toNat ++ "," ++ toString length.toNat
  | monitor command => "qRcmd," ++ hexBytes (codes command)
  | readMemory address length => "m" ++ hex address.toNat ++ "," ++ hex length.toNat

def packet (request : Request) : PacketBytes := frame (codes request.text)

/-- Requests for `length` bytes from an address on, with at most `chunk` bytes each, but at least one. -/
def readChunks (chunk : Nat) (address : UInt32) (length : Nat) : List Request :=
  if length = 0 then []
  else
    let part := min length (max chunk 1)
    .readMemory address (UInt32.ofNat part) :: readChunks chunk (address + UInt32.ofNat part) (length - part)
termination_by length

end Request

end FirmwareDebug.Remote
