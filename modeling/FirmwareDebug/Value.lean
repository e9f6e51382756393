import FirmwareDebug.Bytes
import FirmwareDebug.Decimal.Shortest
import FirmwareDebug.Layout

/-!
# Values

The bytes of an object as text, by the layout of its type. Bytes that could not be read are missing;
a number that needs one of them is not shown.
-/

namespace FirmwareDebug

open Text

/-- Bytes of which some may be missing. What lies behind the end is missing too. -/
abbrev PartialBytes := List (Option UInt8)

namespace PartialBytes

/-- `length` bytes from an offset on. -/
def slice (bytes : PartialBytes) (offset length : Nat) : PartialBytes := (bytes.drop offset).take length

/-- The first `size` bytes, if none is missing. -/
def first? (bytes : PartialBytes) : (size : Nat) → Option (List UInt8)
  | 0 => some []
  | size + 1 =>
    match bytes with
    | some b :: rest => (PartialBytes.first? rest size).map (b :: ·)
    | _ => none

end PartialBytes

/-- How integers are written; pointers are always hexadecimal. -/
inductive NumericBase
  | decimal | hexadecimal
  deriving DecidableEq, Repr

/-- A value as it is shown, with a part for each member or element. -/
structure ValueTree where
  name : String := ""
  typeText : String := ""
  /-- The text of a single value; aggregates and arrays have parts instead. -/
  value : Option String := none
  parts : List ValueTree := []
  deriving Repr

namespace ValueTree

def label (name : String) : String := if name = "" then "<anonymous>" else name

def indent (depth : Nat) : String := padLeft ' ' (2 * depth) ""

mutual

/-- The lines of a value, where each level is indented by two blanks. -/
def textAt (depth : Nat) : ValueTree → String
  | ⟨name, _, some value, _⟩ => indent depth ++ label name ++ " = " ++ value ++ "\n"
  | ⟨name, _, none, parts⟩ =>
    indent depth ++ label name ++ " = \x7b\n" ++ partsAt (depth + 1) parts ++ indent depth ++ "\x7d\n"

def partsAt (depth : Nat) : List ValueTree → String
  | [] => ""
  | part :: rest => textAt depth part ++ partsAt depth rest

end

def text (tree : ValueTree) : String := tree.textAt 0

end ValueTree

def unavailableText : String := "??"

def unknownSizeText : String := "<<< UNKNOWN SIZE >>>"

def maxElements : Nat := 256

/-- The number in the first `size` bytes, least significant byte first; or the text in its place. -/
def readNumber (bytes : PartialBytes) (size : UInt32) : Except String UInt64 :=
  if size = 1 ∨ size = 2 ∨ size = 4 ∨ size = 8 then
    match bytes.first? size.toNat with
    | some bytes => .ok (UInt64.ofNat (littleEndian bytes))
    | none => .error unavailableText
  else .error unknownSizeText

/-- The lowest `bits` bits of a number as a signed one. -/
def signExtend (value : UInt64) (bits : UInt32) : Int64 :=
  if bits = 0 ∨ 64 ≤ bits then value.toInt64
  else
    let unused := 64 - bits.toUInt64
    (value <<< unused).toInt64 >>> unused.toInt64

/-- An integer; `value` is what the bits `raw` stand for where they have a sign. -/
def integerText (base : NumericBase) (raw : UInt64) (value : Int64) (isSigned : Bool) : String :=
  match base with
  | .hexadecimal => "0x" ++ hex raw.toNat
  | .decimal => if isSigned then toString value.toInt else toString raw.toNat

def characterText (code : UInt8) : String :=
  let c := Char.ofNat code.toNat
  if c = '\t' then "\\t"
  else if c = '\r' then "\\r"
  else if c = '\n' then "\\n"
  else if c = '\'' ∨ c = '"' ∨ c = '\\' then "\\" ++ String.singleton c
  else if ' ' ≤ c ∧ c ≤ '~' then String.singleton c
  else "\\u\x7b" ++ hex code.toNat ++ "\x7d"

namespace Shape

/-- Whether the bits of a number have a sign; without an encoding a negative enumerator tells it. -/
def isSigned (shape : Shape) : Bool :=
  match shape.encoding with
  | some encoding => encoding = .signed || encoding = .signedChar
  | none => shape.enumerators.any fun enumerator => enumerator.2 < 0

/-- The bits of a bit field, or of the whole number where there is none. -/
def fieldOf (shape : Shape) (raw : UInt64) : UInt64 × UInt32 :=
  if shape.bitSize = 0 then (raw, shape.size * 8)
  else
    let mask : UInt64 := (1 <<< (min shape.bitSize 63).toUInt64) - 1
    (raw >>> shape.bitPosition.toUInt64 &&& mask, shape.bitSize)

def plainText (shape : Shape) (base : NumericBase) (raw : UInt64) (value : Int64) : String :=
  let integer := integerText base raw value shape.isSigned
  if shape.encoding = some .boolean then (if raw = 0 then "false" else "true")
  else if shape.encoding = some .float then
    if shape.size = 4 then Decimal.FloatFormat.single.text raw.toUInt32.toNat
    else if shape.size = 8 then Decimal.FloatFormat.double.text raw.toNat
    else unknownSizeText
  else if (shape.encoding = some .signedChar ∨ shape.encoding = some .unsignedChar) ∧ shape.size = 1 then
    integer ++ " '" ++ characterText raw.toUInt8 ++ "'"
  else integer

/-- The text of the bits of a number; a value of an enumeration has its name behind it. -/
def bitsText (shape : Shape) (base : NumericBase) (raw : UInt64) : String :=
  let (raw, bits) := shape.fieldOf raw
  let value := if shape.isSigned then signExtend raw bits else raw.toInt64
  if shape.enumerators.isEmpty then shape.plainText base raw value
  else
    let number := integerText base raw value shape.isSigned
    match shape.enumerators.find? fun enumerator => enumerator.2 = value with
    | some (name, _) => number ++ " (" ++ name ++ ")"
    | none => number

def scalarText (shape : Shape) (base : NumericBase) (bytes : PartialBytes) : String :=
  match readNumber bytes shape.size with
  | .ok raw => shape.bitsText base raw
  | .error text => text

def pointerText (shape : Shape) (bytes : PartialBytes) : String :=
  match readNumber bytes shape.size with
  | .ok address => "0x" ++ hexWide 8 address.toNat
  | .error text => text

/-- The text of a value without members: nothing is known about one that has no size either. -/
def leafText (shape : Shape) (base : NumericBase) (bytes : PartialBytes) : String :=
  if shape.size = 0 ∧ shape.encoding.isNone ∧ shape.enumerators.isEmpty then "\x7b\x7d"
  else shape.scalarText base bytes

end Shape

/-- The part that stands for the elements of an array which are not shown. -/
def omittedElements (count : Nat) : List ValueTree :=
  if count ≤ maxElements then []
  else [{ name := "...", value := some (toString (count - maxElements) ++ " more elements") }]

/--
An array whose elements, of a size and a type, are shown by `element`. The outer dimension comes
first: an element of it is an array of the other dimensions.
-/
def arrayTree (element : PartialBytes → ValueTree) (elementSize : UInt32) (elementType : String) :
    List ArrayDimension → (typeText : String) → (size : UInt32) → PartialBytes → ValueTree
  | [], _, _, bytes => element bytes
  | .counted count :: rest, typeText, size, bytes =>
    let stride := if rest.isEmpty then elementSize else size / count
    let part (i : Nat) : ValueTree :=
      let bytes := bytes.slice (i * stride.toNat) stride.toNat
      { arrayTree element elementSize elementType rest elementType stride bytes with
        name := "[" ++ toString i ++ "]" }
    let parts := (List.range (min count.toNat maxElements)).map part
    { typeText, parts := parts ++ omittedElements count.toNat }
  | _ :: _, typeText, _, _ => { typeText, value := some "[...]" }

namespace Layout

mutual

def tree (base : NumericBase) : Layout → PartialBytes → ValueTree
  | ⟨shape, members⟩, bytes =>
    let leaf (text : String) : ValueTree := { name := shape.name, typeText := shape.typeText, value := some text }
    if shape.isVariableLength then leaf "<variable length array>"
    else if shape.isRecursive then leaf recursionMark
    else if !shape.dimensions.isEmpty then
      match members.head? with
      | none => leaf "[]"
      | some element =>
        { arrayTree (firstTree base members) element.size element.typeText shape.dimensions shape.typeText
            shape.size bytes with name := shape.name }
    else if shape.isPointer then leaf (shape.pointerText bytes)
    else if !members.isEmpty then
      { name := shape.name, typeText := shape.typeText, parts := memberTrees base members bytes }
    else leaf (shape.leafText base bytes)

def memberTrees (base : NumericBase) : List Layout → PartialBytes → List ValueTree
  | [], _ => []
  | member :: rest, bytes =>
    let own := bytes.slice member.memberOffset.toNat member.size.toNat
    tree base member own :: memberTrees base rest bytes

def firstTree (base : NumericBase) : List Layout → PartialBytes → ValueTree
  | [], _ => {}
  | member :: _, bytes => tree base member bytes

end

end Layout

end FirmwareDebug
