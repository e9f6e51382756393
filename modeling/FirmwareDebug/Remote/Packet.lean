import FirmwareDebug.Text.Hex
import FirmwareDebug.Text.LossyUtf8
import FirmwareDebug.Text.Quoted

/-!
# Packets to and from a debug probe

A packet is a dollar sign, a body, a number sign and two hexadecimal digits that give the sum of the
body's bytes. In the body the three special characters are escaped: a brace announces a byte that
was changed.
-/

namespace FirmwareDebug.Remote

open Text

abbrev PacketBytes := List UInt8

def code (c : Char) : UInt8 := UInt8.ofNat c.toNat

def codes (text : String) : PacketBytes := text.toUTF8.toList

def escapeMark : UInt8 := code '\x7d'

def startMark : UInt8 := code '$'

def endMark : UInt8 := code '#'

/-- What an escaped byte differs by from the byte that it stands for. -/
def escapeChange : UInt8 := 0x20

/-- Whether a byte may not stand in a body by itself. -/
def isSpecial (b : UInt8) : Bool := b = escapeMark || b = endMark || b = startMark

/-- The sum of bytes, as far as it fits a byte. -/
def checksum (data : PacketBytes) : UInt8 := data.foldl (· + ·) 0

def escape : PacketBytes → PacketBytes
  | [] => []
  | b :: rest =>
    if isSpecial b then escapeMark :: (b ^^^ escapeChange) :: escape rest else b :: escape rest

/-- A payload from its escaped form; an escape at the very end stands for nothing. -/
def unescape : PacketBytes → PacketBytes
  | [] => []
  | [b] => if b = escapeMark then [] else [b]
  | b :: next :: rest =>
    if b = escapeMark then (next ^^^ escapeChange) :: unescape rest else b :: unescape (next :: rest)

def frame (payload : PacketBytes) : PacketBytes :=
  let body := escape payload
  startMark :: body ++ endMark :: codes (hexByte (checksum body))

/-- The number in two digits; a plus sign may stand for the first one. -/
def hexPair? (first second : UInt8) : Option UInt8 := do
  let low ← hexDigit? (Char.ofNat second.toNat)
  if first = code '+' then return UInt8.ofNat low
  let high ← hexDigit? (Char.ofNat first.toNat)
  return UInt8.ofNat (16 * high + low)

/-- What follows the start of a packet as a body, if the last three bytes give its sum. -/
def bodyBefore? (rest : PacketBytes) : Option PacketBytes :=
  let body := rest.take (rest.length - 3)
  match rest.drop (rest.length - 3) with
  | [mark, first, second] => if mark = endMark ∧ hexPair? first second = some (checksum body) then some body else none
  | _ => none

def body? : PacketBytes → Option PacketBytes
  | start :: rest => if start = startMark then bodyBefore? rest else none
  | [] => none

def isValid (packet : PacketBytes) : Bool := (body? packet).isSome

/-- Why a packet is not what was asked for. -/
inductive PacketFault
  | invalid (packet : PacketBytes)
  /-- The remote end gave an error number. -/
  | errorReply (number : UInt8)
  | unexpected (payload : PacketBytes)
  | notHex (digits : PacketBytes)
  deriving DecidableEq, Repr

def PacketFault.message : PacketFault → String
  | invalid packet => "Invalid packet " ++ quoted (lossyUtf8 packet)
  | errorReply number => "Remote reported error 0x" ++ hexByte number
  | unexpected payload => "Unexpected reply: " ++ lossyUtf8 payload
  | notHex digits => "Invalid hex data: " ++ lossyUtf8 digits

def payload (packet : PacketBytes) : Except PacketFault PacketBytes :=
  match body? packet with
  | some body => .ok (unescape body)
  | none => .error (.invalid packet)

/--
The first complete packet among received bytes and what comes behind it. What comes before it, such
as acknowledgements, is dropped with it.
-/
def extract? (received : PacketBytes) : Option (PacketBytes × PacketBytes) :=
  let packet := received.dropWhile (· ≠ startMark)
  match packet.dropWhile (· ≠ endMark) with
  | mark :: first :: second :: rest => some (packet.takeWhile (· ≠ endMark) ++ [mark, first, second], rest)
  | _ => none

/-- The number of an error reply: the letter E and two digits. -/
def errorNumber? (reply : PacketBytes) : Option UInt8 :=
  match body? reply with
  | some [letter, first, second] => if letter = code 'E' then hexPair? first second else none
  | _ => none

def isError (reply : PacketBytes) : Bool := (errorNumber? reply).isSome

def isOk (reply : PacketBytes) : Bool := (body? reply).any fun body => unescape body = codes "OK"

def isEmpty (reply : PacketBytes) : Bool := (body? reply).any fun body => (unescape body).isEmpty

end FirmwareDebug.Remote
