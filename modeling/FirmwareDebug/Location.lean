/-! # Locations

What an expression computes: where a value lives, or the value itself.
-/

namespace FirmwareDebug

/-- The place of a value. -/
inductive Location
  /-- The value has no place, or its place is not available. -/
  | invalid
  /-- The value itself. -/
  | constant (value : UInt32)
  | memory (address : UInt32)
  | register (number : UInt32)
  /-- The value is put together from pieces of the given sizes in bytes, lowest byte first. -/
  | composite (pieces : List (Location × UInt32))
  deriving Repr

/-- One part of a composite value: its place and its size in bytes. -/
abbrev Piece := Location × UInt32

mutual

def Location.text : Location → String
  | .invalid => "Invalid"
  | .constant value => "Constant(" ++ toString value.toNat ++ ")"
  | .memory address => "MemoryAddress(" ++ toString address.toNat ++ ")"
  | .register number => "RegisterNumber(" ++ toString number.toNat ++ ")"
  | .composite pieces => "Composite([" ++ ", ".intercalate (Location.pieceTexts pieces) ++ "])"

def Location.pieceTexts : List (Location × UInt32) → List String
  | [] => []
  | (location, size) :: rest =>
    ("Piece \x7b value: " ++ location.text ++ ", byte_size: " ++ toString size.toNat ++ " \x7d")
      :: Location.pieceTexts rest

end

end FirmwareDebug
