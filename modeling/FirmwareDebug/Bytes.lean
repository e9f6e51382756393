/-! # Bytes and the numbers written in them -/

namespace FirmwareDebug

-- Powers are those of the core library, also beside a hierarchy of algebraic structures.
attribute [instance (high), default_instance 20000] instPowNat

abbrev Bytes := Array UInt8

/-- The number that a list of bytes writes, least significant byte first. -/
def littleEndian : List UInt8 → Nat
  | [] => 0
  | b :: rest => b.toNat + 256 * littleEndian rest

/-- The lowest `count` bytes of a number, least significant byte first. -/
def littleEndianBytes : (count : Nat) → (n : Nat) → List UInt8
  | 0, _ => []
  | count + 1, n => UInt8.ofNat (n % 256) :: littleEndianBytes count (n / 256)

@[simp]
theorem length_littleEndianBytes (count n : Nat) : (littleEndianBytes count n).length = count := by
  induction count generalizing n with
  | zero => rfl
  | succ count ih => simp [littleEndianBytes, ih]

/-- The 32-bit word that starts a list of bytes; missing bytes count as zero. -/
def wordOfBytes (bytes : List UInt8) : UInt32 := UInt32.ofNat (littleEndian (bytes.take 4))

def wordBytes (word : UInt32) : List UInt8 := littleEndianBytes 4 word.toNat

end FirmwareDebug
