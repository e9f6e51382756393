import FirmwareDebug.Bytes

/-! # Reading bytes as text

`decodeUtf8?` reads exactly the well-formed byte sequences. `lossyUtf8` reads every sequence: each
longest piece that starts a character but does not finish one becomes a replacement character.
-/

namespace FirmwareDebug.Text

def decodeUtf8? (bytes : List UInt8) : Option String :=
  String.fromUTF8? ⟨bytes.toArray⟩

/-- How many bytes a character takes that starts with this byte, and the range of its second byte. -/
def sequenceShape (lead : UInt8) : Option (Nat × UInt8 × UInt8) :=
  if lead < 0xc2 then none
  else if lead < 0xe0 then some (2, 0x80, 0xbf)
  else if lead = 0xe0 then some (3, 0xa0, 0xbf)
  else if lead = 0xed then some (3, 0x80, 0x9f)
  else if lead < 0xf0 then some (3, 0x80, 0xbf)
  else if lead = 0xf0 then some (4, 0x90, 0xbf)
  else if lead < 0xf4 then some (4, 0x80, 0xbf)
  else if lead = 0xf4 then some (4, 0x80, 0x8f)
  else none

def isContinuation (b : UInt8) : Bool := 0x80 ≤ b && b ≤ 0xbf

/-- Length of the longest start of `rest` that can stand after a lead byte of the given shape. -/
def continuationLength (count : Nat) (low high : UInt8) (rest : List UInt8) : Nat :=
  match rest with
  | [] => 0
  | b :: more =>
    if low ≤ b ∧ b ≤ high then 1 + ((more.take (count - 2)).takeWhile isContinuation).length else 0

def codePoint (lead : UInt8) (continuation : List UInt8) : Nat :=
  let head := if lead < 0xe0 then lead.toNat - 0xc0 else if lead < 0xf0 then lead.toNat - 0xe0 else lead.toNat - 0xf0
  continuation.foldl (fun value b => value * 64 + (b.toNat - 0x80)) head

/-- The characters of a byte sequence; `skip` bytes belong to a character already read. -/
def lossyChars : (skip : Nat) → List UInt8 → List Char
  | _, [] => []
  | skip + 1, _ :: rest => lossyChars skip rest
  | 0, b :: rest =>
    if b < 0x80 then Char.ofNat b.toNat :: lossyChars 0 rest
    else match sequenceShape b with
      | none => '\uFFFD' :: lossyChars 0 rest
      | some (count, low, high) =>
        let found := continuationLength count low high rest
        if found + 1 = count then Char.ofNat (codePoint b (rest.take found)) :: lossyChars found rest
        else '\uFFFD' :: lossyChars found rest

def lossyUtf8 (bytes : List UInt8) : String := String.ofList (lossyChars 0 bytes)

end FirmwareDebug.Text
