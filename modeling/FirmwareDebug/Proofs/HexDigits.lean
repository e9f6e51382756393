import FirmwareDebug.Proofs.LittleEndian
import FirmwareDebug.Proofs.Reception
import FirmwareDebug.Remote.Reply

/-!
# Digits of bytes

A byte is written in two digits, in either case, and a register in the digits of its bytes in memory order. Such
digits stand in a packet as they are, and none of them are taken for an error.
-/

namespace FirmwareDebug.Remote

open Text

/-! ## Digits -/

/-- A byte that is the digit for a value, in either case. -/
def IsDigit (value : Nat) (digit : UInt8) : Prop :=
  digit = code value.digitChar ∨ digit = code value.digitChar.toUpper

instance (value : Nat) (digit : UInt8) : Decidable (IsDigit value digit) := inferInstanceAs (Decidable (_ ∨ _))

/-- Digits that write bytes, two for each of them. -/
inductive Spells : List UInt8 → PacketBytes → Prop
  | nil : Spells [] []
  | cons {b first second : UInt8} {bytes : List UInt8} {digits : PacketBytes} (high : IsDigit (b.toNat / 16) first)
      (low : IsDigit (b.toNat % 16) second) (rest : Spells bytes digits) : Spells (b :: bytes) (first :: second :: digits)

instance decidableSpells : (bytes : List UInt8) → (digits : PacketBytes) → Decidable (Spells bytes digits)
  | [], [] => isTrue .nil
  | [], _ :: _ => isFalse nofun
  | _ :: _, [] => isFalse nofun
  | _ :: _, [_] => isFalse nofun
  | b :: bytes, first :: second :: digits =>
    have := decidableSpells bytes digits
    decidable_of_iff (IsDigit (b.toNat / 16) first ∧ IsDigit (b.toNat % 16) second ∧ Spells bytes digits)
      ⟨fun ⟨high, low, rest⟩ => .cons high low rest, fun | .cons high low rest => ⟨high, low, rest⟩⟩

variable {value : Nat} {digit b : UInt8} {bytes : List UInt8} {digits : PacketBytes}

theorem IsDigit.read (h : IsDigit value digit) (hlt : value < 16) :
    hexDigit? (Char.ofNat digit.toNat) = some value ∧ digit ≠ code '+' ∧ isSpecial digit = false := by
  rcases h with rfl | rfl
  · exact (by decide +kernel : ∀ v < 16, hexDigit? (Char.ofNat (code v.digitChar).toNat) = some v ∧
      code v.digitChar ≠ code '+' ∧ isSpecial (code v.digitChar) = false) value hlt
  · exact (by decide +kernel : ∀ v < 16, hexDigit? (Char.ofNat (code v.digitChar.toUpper).toNat) = some v ∧
      code v.digitChar.toUpper ≠ code '+' ∧ isSpecial (code v.digitChar.toUpper) = false) value hlt

theorem hexPair?_of_isDigit {first second : UInt8} (hhigh : IsDigit (b.toNat / 16) first)
    (hlow : IsDigit (b.toNat % 16) second) : hexPair? first second = some b := by
  have hb := b.toNat_lt
  obtain ⟨hfirst, hplus, -⟩ := hhigh.read (by omega)
  obtain ⟨hsecond, -, -⟩ := hlow.read (Nat.mod_lt _ (by omega))
  have hvalue : 16 * (b.toNat / 16) + b.toNat % 16 = b.toNat := Nat.div_add_mod _ _
  simp [hexPair?, hsecond, hplus, hfirst, hvalue, -UInt8.ofNat_add, -UInt8.ofNat_mul]

theorem isDigit_of_read (h : hexDigit? (Char.ofNat digit.toNat) = some value) : value < 16 ∧ IsDigit value digit := by
  have hall : ∀ n : Fin 256, ((hexDigit? (Char.ofNat n.val)).all fun v =>
      decide (v < 16 ∧ IsDigit v (UInt8.ofFin n))) = true := by decide +kernel
  have hdigit := hall digit.toFin
  rw [show digit.toFin.val = digit.toNat from rfl, h] at hdigit
  exact of_decide_eq_true hdigit

/-- Two digits write a number below 256. -/
def Writes (n : Nat) (first second : UInt8) : Prop := IsDigit (n / 16) first ∧ IsDigit (n % 16) second

/-- A plus sign and one digit write a number below 16. -/
def WritesSigned (n : Nat) (first second : UInt8) : Prop := first = code '+' ∧ n < 16 ∧ IsDigit n second

instance (n : Nat) (first second : UInt8) : Decidable (Writes n first second) := inferInstanceAs (Decidable (_ ∧ _))

instance (n : Nat) (first second : UInt8) : Decidable (WritesSigned n first second) :=
  inferInstanceAs (Decidable (_ ∧ _ ∧ _))

theorem Writes.ne_plus {first second : UInt8} (h : Writes b.toNat first second) : first ≠ code '+' := by
  have hb := b.toNat_lt
  exact (h.1.read (by omega)).2.1

/-- Two bytes are taken for a number if they are its digits, or if the first one is a sign. -/
theorem hexPair?_eq_some {first second : UInt8} :
    hexPair? first second = some b ↔ Writes b.toNat first second ∨ WritesSigned b.toNat first second := by
  constructor
  · intro h
    simp only [hexPair?, Option.bind_eq_bind, Option.bind_eq_some_iff] at h
    obtain ⟨low, hlow, h⟩ := h
    obtain ⟨hlowlt, hlow⟩ := isDigit_of_read hlow
    split at h
    case isTrue hplus =>
      obtain rfl := Option.some.inj h
      rw [WritesSigned, UInt8.toNat_ofNat_of_lt' (by rw [UInt8.size]; omega)]
      exact .inr ⟨hplus, hlowlt, hlow⟩
    case isFalse =>
      obtain ⟨high, hhigh, h⟩ := Option.bind_eq_some_iff.mp h
      obtain ⟨hhighlt, hhigh⟩ := isDigit_of_read hhigh
      obtain rfl := Option.some.inj h
      rw [Writes, UInt8.toNat_ofNat_of_lt' (by rw [UInt8.size]; omega), Nat.mul_add_div (by omega), Nat.mul_add_mod,
        Nat.div_eq_of_lt hlowlt, Nat.mod_eq_of_lt hlowlt]
      exact .inl ⟨hhigh, hlow⟩
  · rintro (⟨hhigh, hlow⟩ | ⟨rfl, hlt, hlow⟩)
    · exact hexPair?_of_isDigit hhigh hlow
    · simp [hexPair?, (hlow.read hlt).1]

namespace Spells

theorem hexPairs? (h : Spells bytes digits) : hexPairs? digits = some bytes := by
  induction h with
  | nil => rfl
  | cons high low _ ih => simp [Remote.hexPairs?, hexPair?_of_isDigit high low, ih]

theorem length_digits (h : Spells bytes digits) : digits.length = 2 * bytes.length := by
  induction h with
  | nil => rfl
  | cons _ _ _ ih =>
    simp only [List.length_cons, ih]
    omega

theorem escape (h : Spells bytes digits) : escape digits = digits := by
  induction h with
  | nil => rfl
  | @cons b _ _ _ _ high low _ ih =>
    have hb := b.toNat_lt
    obtain ⟨-, -, hfirst⟩ := high.read (by omega)
    obtain ⟨-, -, hsecond⟩ := low.read (Nat.mod_lt _ (by omega))
    simp [Remote.escape, hfirst, hsecond, ih]

/-- An error is an odd number of characters, and data is an even one. -/
theorem errorNumber? (h : Spells bytes digits) : errorNumber? (frame digits) = none := by
  have hlen := h.length_digits
  unfold Remote.errorNumber?
  rw [body?_frame, h.escape]
  match digits, hlen with
  | [], _ => rfl
  | [_], _ => rfl
  | [_, _], _ => rfl
  | [_, _, _], hlen =>
    simp only [List.length_cons, List.length_nil] at hlen
    omega
  | _ :: _ :: _ :: _ :: _, _ => rfl

theorem replyPayload (h : Spells bytes digits) : replyPayload (frame digits) = .ok digits := by
  simp [Remote.replyPayload, h.errorNumber?, payload_frame]

theorem ofHex (h : Spells bytes digits) : ofHex digits = .ok bytes := by
  simp [Remote.ofHex, h.hexPairs?]

end Spells

/-! ## Registers -/

@[simp]
theorem wordsOf_wordBytes (word : UInt32) (rest : List UInt8) :
    wordsOf (wordBytes word ++ rest) = word :: wordsOf rest := by
  have hword := wordOfBytes_wordBytes word
  simpa [wordBytes, littleEndianBytes, wordsOf] using hword

@[simp]
theorem wordsOf_flatMap (registers : List UInt32) : wordsOf (registers.flatMap wordBytes) = registers := by
  induction registers with
  | nil => rfl
  | cons register registers ih => rw [List.flatMap_cons, wordsOf_wordBytes, ih]

@[simp]
theorem length_flatMap_wordBytes (registers : List UInt32) :
    (registers.flatMap wordBytes).length = 4 * registers.length := by
  induction registers with
  | nil => rfl
  | cons register registers ih =>
    rw [List.flatMap_cons, List.length_append, ih, length_wordBytes, List.length_cons]
    omega

theorem registersOf_frame {registers : List UInt32} (h : Spells (registers.flatMap wordBytes) digits) :
    registersOf (frame digits) = .ok registers := by
  have hwhole : digits.length % 8 = 0 := by
    rw [h.length_digits, length_flatMap_wordBytes]
    omega
  simp [registersOf, h.replyPayload, h.ofHex, hwhole, wordsOf_flatMap, Bind.bind, Except.bind, pure, Except.pure]

end FirmwareDebug.Remote
