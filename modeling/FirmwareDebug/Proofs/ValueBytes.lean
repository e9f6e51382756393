import FirmwareDebug.Evaluate
import FirmwareDebug.Proofs.LittleEndian
import Mathlib.Algebra.BigOperators.Group.List.Basic

/-!
# Where the bytes of a value come from

A value has as many bytes as are asked for, whatever of it can be had. Each piece of a composite value fills the
places behind the pieces in front of it, with the bytes that it has by itself, and each register in a row fills four
places. So what cannot be had of one part leaves the bytes of the others where they are.
-/

namespace FirmwareDebug

variable {target : Target} {registers : RegisterCache} {number pieceSize : UInt32} {size count i j : Nat}
  {pieces before after : List Piece} {location other : Location} {bytes : List (Option UInt8)}

/-! ## Bytes of a number -/

theorem getElem?_littleEndianBytes {n : Nat} (h : i < count) :
    (littleEndianBytes count n)[i]? = some (UInt8.ofNat (n / 256 ^ i)) := by
  induction count generalizing n i with
  | zero => omega
  | succ count ih =>
    cases i with
    | zero =>
      have hbyte : UInt8.ofNat (n % 256) = UInt8.ofNat n := UInt8.toNat_inj.mp (Nat.mod_mod_of_dvd n (Nat.dvd_refl _))
      rw [littleEndianBytes, List.getElem?_cons_zero, hbyte, Nat.pow_zero, Nat.div_one]
    | succ i =>
      rw [littleEndianBytes, List.getElem?_cons_succ, ih (by omega), Nat.div_div_eq_div_mul, ← Nat.pow_succ']

theorem getElem?_wordBytes {word : UInt32} (h : i < 4) : (wordBytes word)[i]? = some (UInt8.ofNat (word.toNat / 256 ^ i)) :=
  getElem?_littleEndianBytes h

/-! ## As many bytes as asked for -/

@[simp]
theorem length_fill : (fetch.fill size bytes).length = size := by
  rw [fetch.fill, List.length_append, List.length_take, List.length_replicate]
  omega

theorem getElem?_fill (h : j < size) : (fetch.fill size bytes)[j]? = some bytes[j]?.join := by
  rw [fetch.fill, List.getElem?_append, List.length_take, List.getElem?_take, if_pos h]
  split
  case isTrue hlt =>
    rw [List.getElem?_eq_getElem (by omega)]
    rfl
  case isFalse hle =>
    rw [List.getElem?_replicate, if_pos (by omega), List.getElem?_eq_none (by omega)]
    rfl

@[simp]
theorem length_fetch (target : Target) (registers : RegisterCache) (size : Nat) (location : Location) :
    (fetch target registers size location).length = size := by
  cases location with
  | invalid => exact List.length_replicate
  | memory address =>
    simp only [fetch]
    split
    · exact length_fill
    · exact List.length_replicate
  | constant | register | composite =>
    simp only [fetch]
    exact length_fill

/-! ## Pieces -/

/-- How many bytes there are in some pieces. -/
def bytesIn (pieces : List Piece) : Nat := (pieces.map fun piece => piece.2.toNat).sum

theorem fetchPieces_eq (pieces : List Piece) :
    fetchPieces target registers pieces = pieces.flatMap fun piece => fetch target registers piece.2.toNat piece.1 := by
  induction pieces with
  | nil => rfl
  | cons piece rest ih => rw [fetchPieces, ih, List.flatMap_cons]

@[simp]
theorem length_fetchPieces (target : Target) (registers : RegisterCache) (pieces : List Piece) :
    (fetchPieces target registers pieces).length = bytesIn pieces := by
  rw [fetchPieces_eq, List.length_flatMap]
  simp only [length_fetch]
  rfl

theorem fetchPieces_split : fetchPieces target registers (before ++ (location, pieceSize) :: after) =
    fetchPieces target registers before ++
      (fetch target registers pieceSize.toNat location ++ fetchPieces target registers after) := by
  rw [fetchPieces_eq, List.flatMap_append, List.flatMap_cons, ← fetchPieces_eq, ← fetchPieces_eq]

theorem getElem?_composite (h : j < size) : (fetch target registers size (.composite pieces))[j]? =
    some (fetchPieces target registers pieces)[j]?.join := by
  rw [fetch, getElem?_fill h]

theorem getElem?_piece (hpiece : pieces[i]? = some (location, pieceSize)) (hlow : bytesIn (pieces.take i) ≤ j)
    (hhigh : j < bytesIn (pieces.take i) + pieceSize.toNat) (hj : j < size) :
    (fetch target registers size (.composite pieces))[j]? =
      (fetch target registers pieceSize.toNat location)[j - bytesIn (pieces.take i)]? := by
  obtain ⟨hi, hget⟩ := List.getElem?_eq_some_iff.mp hpiece
  have hsplit : pieces = pieces.take i ++ (location, pieceSize) :: pieces.drop (i + 1) := by
    rw [← hget, ← List.drop_eq_getElem_cons hi, List.take_append_drop]
  have hfront := length_fetchPieces target registers (pieces.take i)
  have hlength := length_fetch target registers pieceSize.toNat location
  rw [getElem?_composite hj]
  conv_lhs => rw [hsplit]
  rw [fetchPieces_split, List.getElem?_append_right (by omega), hfront, List.getElem?_append_left (by omega),
    List.getElem?_eq_getElem (by omega), Option.join_some]

theorem getElem?_behind (hlast : bytesIn pieces ≤ j) (hj : j < size) :
    (fetch target registers size (.composite pieces))[j]? = some none := by
  rw [getElem?_composite hj, List.getElem?_eq_none (by rwa [length_fetchPieces]), Option.join_none]

theorem getElem?_beside (hj : j < bytesIn before ∨ bytesIn before + pieceSize.toNat ≤ j) :
    (fetch target registers size (.composite (before ++ (location, pieceSize) :: after)))[j]? =
      (fetch target registers size (.composite (before ++ (other, pieceSize) :: after)))[j]? := by
  by_cases hsize : j < size
  · have hfront := length_fetchPieces target registers before
    rw [getElem?_composite hsize, getElem?_composite hsize, fetchPieces_split, fetchPieces_split]
    rcases hj with hlt | hle
    · rw [List.getElem?_append_left (by omega), List.getElem?_append_left (by omega)]
    · have hpiece (location : Location) := length_fetch target registers pieceSize.toNat location
      rw [List.getElem?_append_right (by omega), List.getElem?_append_right (by rw [hpiece]; omega),
        List.getElem?_append_right (by omega), List.getElem?_append_right (by rw [hpiece]; omega), hpiece, hpiece]
  · rw [List.getElem?_eq_none (by rw [length_fetch]; omega), List.getElem?_eq_none (by rw [length_fetch]; omega)]

/-! ## Registers -/

/-- A byte of a register of the active frame, the lowest one first; there may be no such register. -/
def RegisterCache.byte? (registers : RegisterCache) (number place : Nat) : Option UInt8 := do
  let frame ← registers.frames[registers.active]?
  let word ← frame[number]?
  return UInt8.ofNat (word.toNat / 256 ^ place)

def bytesOfRegister (registers : RegisterCache) (number : UInt32) : List (Option UInt8) :=
  match registers.register number with
  | .ok value => (wordBytes value).map some
  | .error _ => List.replicate 4 none

@[simp]
theorem length_bytesOfRegister : (bytesOfRegister registers number).length = 4 := by
  unfold bytesOfRegister
  split
  · rw [List.length_map, length_wordBytes]
  · exact List.length_replicate

theorem getElem?_bytesOfRegister (h : i < 4) :
    (bytesOfRegister registers number)[i]? = some (registers.byte? number.toNat i) := by
  unfold bytesOfRegister RegisterCache.register RegisterCache.activeFrame RegisterCache.frame RegisterCache.byte?
  cases registers.frames[registers.active]? with
  | none => exact List.getElem?_replicate_of_lt h
  | some frame =>
    simp only [bind, Except.bind, RegisterFrame.get?, Option.bind_some]
    cases frame[number.toNat]? with
    | none => exact List.getElem?_replicate_of_lt h
    | some word =>
      simp only [List.getElem?_map, getElem?_wordBytes h]
      rfl

@[simp]
theorem registerBytes_succ : fetch.registerBytes registers number (count + 1) =
    bytesOfRegister registers number ++ fetch.registerBytes registers (number + 1) count := rfl

theorem getElem?_registerBytes (h : j < 4 * count) : (fetch.registerBytes registers number count)[j]? =
    some (registers.byte? (number + UInt32.ofNat (j / 4)).toNat (j % 4)) := by
  induction count generalizing number j with
  | zero => omega
  | succ count ih =>
    rw [registerBytes_succ]
    by_cases hfirst : j < 4
    · rw [List.getElem?_append_left (by rwa [length_bytesOfRegister]), getElem?_bytesOfRegister hfirst,
        Nat.div_eq_of_lt hfirst, Nat.mod_eq_of_lt hfirst]
      congr
      simp
    · have hnext : number + 1 + UInt32.ofNat ((j - 4) / 4) = number + UInt32.ofNat (j / 4) := by
        rw [show j / 4 = 1 + (j - 4) / 4 by omega, UInt32.ofNat_add, UInt32.add_assoc]
        rfl
      rw [List.getElem?_append_right (by rw [length_bytesOfRegister]; omega), length_bytesOfRegister, ih (by omega),
        hnext, show (j - 4) % 4 = j % 4 by omega]

theorem getElem?_register (hfits : number.toNat + size < 2 ^ 32) (hj : j < size) :
    (fetch target registers size (.register number))[j]? = some (registers.byte? (number.toNat + j / 4) (j % 4)) := by
  have hplace : (number + UInt32.ofNat (j / 4)).toNat = number.toNat + j / 4 := by
    rw [UInt32.toNat_add, UInt32.toNat_ofNat', Nat.add_mod_mod, Nat.mod_eq_of_lt (by omega)]
  rw [fetch, getElem?_fill hj, getElem?_registerBytes (by omega), hplace, Option.join_some]

/-! ## The result -/

/-- The bytes of values, each told by its place. -/
structure BytesInPlace (target : Target) (registers : RegisterCache) : Prop where
  length_eq : ∀ size location, (fetch target registers size location).length = size
  /-- The bytes of a piece begin behind those of the pieces in front of it, and are the ones it has by itself. -/
  piece_eq : ∀ size (pieces : List Piece) i location pieceSize, pieces[i]? = some (location, pieceSize) →
    ∀ j < size, bytesIn (pieces.take i) ≤ j → j < bytesIn (pieces.take i) + pieceSize.toNat →
      (fetch target registers size (.composite pieces))[j]? =
        (fetch target registers pieceSize.toNat location)[j - bytesIn (pieces.take i)]?
  behind_eq : ∀ size pieces, ∀ j < size, bytesIn pieces ≤ j →
    (fetch target registers size (.composite pieces))[j]? = some none
  /-- Another piece of the same size in the place of one changes no byte of the others. -/
  beside_eq : ∀ size before location other pieceSize after j,
    j < bytesIn before ∨ bytesIn before + pieceSize.toNat ≤ j →
      (fetch target registers size (.composite (before ++ (location, pieceSize) :: after)))[j]? =
        (fetch target registers size (.composite (before ++ (other, pieceSize) :: after)))[j]?
  /-- Four bytes are of one register, and the next four of the one behind it. -/
  register_eq : ∀ size number, number.toNat + size < 2 ^ 32 → ∀ j < size,
    (fetch target registers size (.register number))[j]? = some (registers.byte? (number.toNat + j / 4) (j % 4))

/-- Values are put together from the bytes of their parts, each in its place, whatever of them can be had. -/
theorem bytesInPlace (target : Target) (registers : RegisterCache) : BytesInPlace target registers where
  length_eq := length_fetch target registers
  piece_eq _ _ _ _ _ hpiece _ hj hlow hhigh := getElem?_piece hpiece hlow hhigh hj
  behind_eq _ _ _ hj hlast := getElem?_behind hlast hj
  beside_eq _ _ _ _ _ _ _ hj := getElem?_beside hj
  register_eq _ _ hfits _ hj := getElem?_register hfits hj

/-- One byte of a register, four bytes of memory that cannot be had, and two bytes of a constant. -/
example : fetch ⟨fun address length => .error (.memoryUnavailable address length), fun _ => .ok 0⟩
    { frames := [Vector.replicate 16 0x1234] } 8
      (.composite [(.register 3, 1), (.memory 0x2000, 4), (.constant 0xabcd, 2)]) =
    [some 0x34, none, none, none, none, some 0xcd, some 0xab, none] := by
  decide +kernel

end FirmwareDebug
