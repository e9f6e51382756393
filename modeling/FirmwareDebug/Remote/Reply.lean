import FirmwareDebug.Bytes
import FirmwareDebug.Remote.Packet

/-! # Replies of a debug probe -/

namespace FirmwareDebug.Remote

open Text

def hexPairs? : PacketBytes → Option (List UInt8)
  | [] => some []
  | [_] => none
  | first :: second :: rest => do
    let b ← hexPair? first second
    return b :: (← hexPairs? rest)

def ofHex (digits : PacketBytes) : Except PacketFault (List UInt8) :=
  match hexPairs? digits with
  | some bytes => .ok bytes
  | none => .error (.notHex digits)

def replyPayload (reply : PacketBytes) : Except PacketFault PacketBytes :=
  match errorNumber? reply with
  | some number => .error (.errorReply number)
  | none => payload reply

/-- The words in bytes; what does not fill a word is left out. -/
def wordsOf : List UInt8 → List UInt32
  | a :: b :: c :: d :: rest => wordOfBytes [a, b, c, d] :: wordsOf rest
  | _ => []

/-- The registers in a reply, each of them as the digits of its bytes in memory order. -/
def registersOf (reply : PacketBytes) : Except PacketFault (List UInt32) := do
  let digits ← replyPayload reply
  if digits.length % 8 ≠ 0 then throw (.notHex digits)
  return wordsOf (← ofHex digits)

def memoryOf (replies : List PacketBytes) : Except PacketFault (List UInt8) := do
  let parts ← replies.mapM fun reply => do ofHex (← replyPayload reply)
  return parts.flatten

/-- The memory map in a reply, behind a letter that tells whether there is more of it. -/
def memoryMapOf (reply : PacketBytes) : Except PacketFault String := do
  match ← replyPayload reply with
  | letter :: text =>
    if letter = code 'm' ∨ letter = code 'l' then return lossyUtf8 text
    else throw (.unexpected (letter :: text))
  | [] => throw (.unexpected [])

/-- The text that a command for the probe has written, if the reply holds any. -/
def consoleTextOf (reply : PacketBytes) : Except PacketFault (Option String) := do
  match ← replyPayload reply with
  | letter :: digits =>
    if letter ≠ code 'O' ∨ digits = [] ∨ digits = codes "K" then return none
    return some (lossyUtf8 (← ofHex digits))
  | [] => return none

end FirmwareDebug.Remote
