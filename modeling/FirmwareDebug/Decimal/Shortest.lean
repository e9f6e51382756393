import FirmwareDebug.Text.Hex

/-!
# Shortest decimals

A floating-point number stands for all numbers that are rounded to it. It is written with the fewest
digits that name one of these, and among them by the nearest one; of two that are equally near by
the larger one. There is never an exponent.
-/

namespace FirmwareDebug

open Text

/-- A decimal number, `digits` times ten to the `exponent`. -/
structure Decimal where
  digits : Nat
  exponent : Int
  deriving DecidableEq, Repr

namespace Decimal

def text (d : Decimal) : String :=
  if 0 ≤ d.exponent then toString (d.digits * 10 ^ d.exponent.toNat)
  else
    let places := (-d.exponent).toNat
    toString (d.digits / 10 ^ places) ++ "." ++ padLeft '0' places (toString (d.digits % 10 ^ places))

/-- A number and the ends of what is rounded to it, all of them times two to the `exponent`. -/
structure Rounding where
  low : Nat
  middle : Nat
  high : Nat
  exponent : Int
  /-- Whether the ends are rounded to the number too. -/
  closed : Bool
  deriving DecidableEq, Repr

namespace Rounding

/-- What multiplies a number to count it in units of ten to the `grid`. -/
def numerator (r : Rounding) (grid : Int) : Nat := 2 ^ r.exponent.toNat * 10 ^ (-grid).toNat

/-- What divides a number to count it in units of ten to the `grid`. -/
def denominator (r : Rounding) (grid : Int) : Nat := 2 ^ (-r.exponent).toNat * 10 ^ grid.toNat

/-- Whether `digits` times ten to the `grid` is rounded to the number. -/
def reads (r : Rounding) (grid : Int) (digits : Nat) : Bool :=
  let value := digits * r.denominator grid
  let low := r.low * r.numerator grid
  let high := r.high * r.numerator grid
  if r.closed then low ≤ value && value ≤ high else low < value && value < high

/-- The whole units of ten to the `grid` in the number. -/
def below (r : Rounding) (grid : Int) : Nat := r.middle * r.numerator grid / r.denominator grid

/-- Whether the lower neighbour on a grid is nearer to the number than the upper one. -/
def isNearerBelow (r : Rounding) (grid : Int) : Bool :=
  2 * (r.middle * r.numerator grid) < (2 * r.below grid + 1) * r.denominator grid

/-- The neighbour on a grid that is rounded to the number; of two the nearer one. -/
def onGrid (r : Rounding) (grid : Int) : Option Nat :=
  let below := r.below grid
  match r.reads grid below, r.reads grid (below + 1) with
  | true, true => some (if r.isNearerBelow grid then below else below + 1)
  | true, false => some below
  | false, true => some (below + 1)
  | false, false => none

/-- The first decimal that is rounded to the number, on `budget` ever finer grids. -/
def search (r : Rounding) : (budget : Nat) → (grid : Int) → Decimal
  | 0, grid => ⟨r.below grid, grid⟩
  | budget + 1, grid =>
    match r.onGrid grid with
    | some digits => ⟨digits, grid⟩
    | none => r.search budget (grid - 1)

/-- A grid on which the number and all that is rounded to it is less than one unit. -/
def coarse (r : Rounding) : Nat :=
  (toString (r.high * r.numerator 0 / r.denominator 0)).length

/-- The shortest decimal of the number; on the grid of its last bit it is exact. -/
def shortest (r : Rounding) : Decimal := r.search (r.coarse + (-r.exponent).toNat + 1) r.coarse

end Rounding

/-- How a floating-point number is kept in bits. -/
structure FloatFormat where
  mantissaBits : Nat
  exponentBits : Nat
  deriving DecidableEq, Repr

namespace FloatFormat

def single : FloatFormat := ⟨23, 8⟩

def double : FloatFormat := ⟨52, 11⟩

/-- The exponent of the last bit of the smallest numbers. -/
def lastBit (f : FloatFormat) : Int := 2 - (2 ^ (f.exponentBits - 1) + f.mantissaBits : Nat)

/-- The rounding of a finite number that is not zero. -/
def rounding (f : FloatFormat) (exponent mantissa : Nat) : Rounding :=
  if exponent = 0 then
    ⟨4 * mantissa - 2, 4 * mantissa, 4 * mantissa + 2, f.lastBit - 2, true⟩
  else
    let whole := mantissa + 2 ^ f.mantissaBits
    -- Below a power of two numbers lie twice as close.
    let gap := if mantissa = 0 then 1 else 2
    ⟨4 * whole - gap, 4 * whole, 4 * whole + 2, f.lastBit + exponent - 3, whole % 2 = 0⟩

def text (f : FloatFormat) (bits : Nat) : String :=
  let mantissa := bits % 2 ^ f.mantissaBits
  let exponent := bits / 2 ^ f.mantissaBits % 2 ^ f.exponentBits
  let sign := if bits / 2 ^ (f.mantissaBits + f.exponentBits) % 2 = 1 then "-" else ""
  if exponent = 2 ^ f.exponentBits - 1 then (if mantissa = 0 then sign ++ "inf" else "NaN")
  else if exponent = 0 ∧ mantissa = 0 then sign ++ "0"
  else sign ++ (f.rounding exponent mantissa).shortest.text

end FloatFormat

end Decimal

end FirmwareDebug
