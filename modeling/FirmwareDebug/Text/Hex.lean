/-! # Hexadecimal text -/

namespace FirmwareDebug.Text

def hex (n : Nat) : String := String.ofList (Nat.toDigits 16 n)

/-- Text filled on the left with `fill` up to `width` characters. -/
def padLeft (fill : Char) (width : Nat) (text : String) : String :=
  String.ofList (List.replicate (width - text.length) fill) ++ text

/-- Text filled on the right with blanks up to `width` characters. -/
def padRight (width : Nat) (text : String) : String :=
  text ++ String.ofList (List.replicate (width - text.length) ' ')

/-- Hexadecimal text with leading zeros up to `width` digits. -/
def hexWide (width n : Nat) : String := padLeft '0' width (hex n)

def hexByte (b : UInt8) : String := hexWide 2 b.toNat

def hexBytes (bytes : List UInt8) : String := String.join (bytes.map hexByte)

def byteList (bytes : List UInt8) : String :=
  "[" ++ ", ".intercalate (bytes.map hexByte) ++ "]"

def hexDigit? (c : Char) : Option Nat :=
  if '0' ≤ c ∧ c ≤ '9' then some (c.toNat - '0'.toNat)
  else if 'a' ≤ c ∧ c ≤ 'f' then some (c.toNat - 'a'.toNat + 10)
  else if 'A' ≤ c ∧ c ≤ 'F' then some (c.toNat - 'A'.toNat + 10)
  else none

end FirmwareDebug.Text
