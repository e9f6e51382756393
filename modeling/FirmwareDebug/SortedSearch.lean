/-! # Searching sorted arrays -/

namespace FirmwareDebug

/-- Halves the indices from `low` up to `high` until the first one is found where `before` fails. -/
def halve (before : Nat → Bool) : (budget low high : Nat) → Nat
  | 0, low, _ => low
  | budget + 1, low, high =>
    if low < high then
      let middle := (low + high) / 2
      if before middle then halve before budget (middle + 1) high else halve before budget low middle
    else low

/-- How many elements come before those where `before` fails, in an array sorted that way. -/
def partitionPoint {α : Type} (xs : Array α) (before : α → Bool) : Nat :=
  halve (fun i => xs[i]?.any before) xs.size 0 xs.size

def searchKey {α : Type} (xs : Array α) (key : α → UInt32) (wanted : UInt32) : Option Nat :=
  let i := partitionPoint xs fun x => key x < wanted
  if xs[i]?.any fun x => key x = wanted then some i else none

end FirmwareDebug
