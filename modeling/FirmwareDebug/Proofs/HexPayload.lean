import FirmwareDebug.Proofs.HexDigits
import FirmwareDebug.Proofs.Keeps

/-!
# Which payloads are taken for bytes

Memory and registers come as digits, two for each byte. Every character is checked but the first one of a pair, which
may be a plus sign: replies are read or refused as their digits tell just in case no reply that is come to is taken for
digits because of such a sign.
-/

namespace FirmwareDebug.Remote

variable {reply digits : PacketBytes} {replies : List PacketBytes} {part bytes : List UInt8}

/-! ## Pairs -/

/-- What is taken for bytes: for each of them two digits, or a sign and one digit. -/
inductive Taken : List UInt8 → PacketBytes → Prop
  | nil : Taken [] []
  | cons {b first second : UInt8} {bytes : List UInt8} {digits : PacketBytes}
      (pair : Writes b.toNat first second ∨ WritesSigned b.toNat first second) (rest : Taken bytes digits) :
      Taken (b :: bytes) (first :: second :: digits)

/-- Characters that are taken for bytes although one of them is a sign. -/
def Signed (digits : PacketBytes) : Prop := code '+' ∈ digits ∧ ∃ bytes, Taken bytes digits

theorem hexPairs?_eq_some : hexPairs? digits = some bytes ↔ Taken bytes digits := by
  constructor
  · intro h
    fun_induction hexPairs? digits generalizing bytes with
    | case1 =>
      cases h
      exact .nil
    | case2 => cases h
    | case3 first second rest ih =>
      obtain ⟨b, hpair, h⟩ := Option.bind_eq_some_iff.mp h
      obtain ⟨others, hothers, h⟩ := Option.bind_eq_some_iff.mp h
      cases h
      exact .cons (hexPair?_eq_some.mp hpair) (ih hothers)
  · intro h
    induction h with
    | nil => rfl
    | cons pair _ ih => simp [hexPairs?, hexPair?_eq_some.mpr pair, ih]

theorem Spells.taken (h : Spells bytes digits) : Taken bytes digits := by
  induction h with
  | nil => exact .nil
  | cons high low _ ih => exact .cons (.inl ⟨high, low⟩) ih

theorem Spells.plus_not_mem (h : Spells bytes digits) : code '+' ∉ digits := by
  induction h with
  | nil => exact List.not_mem_nil
  | @cons b first second _ _ high low _ ih =>
    have hfirst : first ≠ code '+' := Writes.ne_plus ⟨high, low⟩
    have hsecond := (low.read (Nat.mod_lt _ (by omega))).2.1
    simp [hfirst.symm, hsecond.symm, ih]

theorem Taken.spells (h : Taken bytes digits) (hplus : code '+' ∉ digits) : Spells bytes digits := by
  induction h with
  | nil => exact .nil
  | cons pair _ ih =>
    rw [List.mem_cons, List.mem_cons, not_or, not_or] at hplus
    obtain ⟨hfirst, -, hrest⟩ := hplus
    rcases pair with ⟨high, low⟩ | ⟨hsign, -, -⟩
    · exact .cons high low (ih hrest)
    · exact absurd hsign.symm hfirst

theorem Taken.spells_of_not_signed (h : Taken bytes digits) (hsigned : ¬ Signed digits) : Spells bytes digits :=
  h.spells fun hplus => hsigned ⟨hplus, bytes, h⟩

theorem Signed.not_spells (h : Signed digits) : ¬ Spells bytes digits := fun hspells => hspells.plus_not_mem h.1

theorem ofHex_eq_ok : ofHex digits = .ok bytes ↔ Taken bytes digits := by
  rw [← hexPairs?_eq_some, ofHex]
  cases hexPairs? digits <;> simp

theorem ofHex_eq_error (h : ∀ bytes, ¬ Taken bytes digits) : ofHex digits = .error (.notHex digits) := by
  unfold ofHex
  split
  case h_1 bytes hpairs => exact absurd (hexPairs?_eq_some.mp hpairs) (h bytes)
  case h_2 => rfl

/-! ## One reply -/

/-- A packet that is no error, and what it says. -/
structure Carries (reply digits : PacketBytes) : Prop where
  payload_eq : payload reply = .ok digits
  isError_eq : isError reply = false

/-- A reply says bytes in digits. -/
def Says (reply : PacketBytes) (bytes : List UInt8) : Prop := ∃ digits, Carries reply digits ∧ Spells bytes digits

theorem replyPayload_eq_ok : replyPayload reply = .ok digits ↔ Carries reply digits := by
  unfold replyPayload
  constructor
  · intro h
    split at h
    case h_1 => cases h
    case h_2 hnumber => exact ⟨h, by rw [isError, hnumber]; rfl⟩
  · rintro ⟨hpayload, herror⟩
    have hnone : errorNumber? reply = none := by simpa [isError] using herror
    rw [hnone]
    exact hpayload

/-- The bytes that a reply is taken for. -/
def bytesOf (reply : PacketBytes) : Except PacketFault (List UInt8) := do ofHex (← replyPayload reply)

theorem memoryOf_eq (replies : List PacketBytes) :
    memoryOf replies = (replies.mapM bytesOf >>= fun parts => .ok parts.flatten) := rfl

theorem Carries.bytesOf (h : Carries reply digits) : bytesOf reply = ofHex digits := by
  rw [Remote.bytesOf, replyPayload_eq_ok.mpr h]
  rfl

theorem bytesOf_eq_ok : bytesOf reply = .ok part ↔ ∃ digits, Carries reply digits ∧ Taken part digits := by
  simp only [Remote.bytesOf, bind_eq_ok_iff, replyPayload_eq_ok, ofHex_eq_ok]

theorem not_taken_of_bytesOf (h : bytesOf reply = .error (.notHex digits)) : ¬ Taken bytes digits := by
  cases hpayload : replyPayload reply with
  | ok own =>
    rw [Carries.bytesOf (replyPayload_eq_ok.mp hpayload)] at h
    intro htaken
    unfold ofHex at h
    split at h
    case h_1 => cases h
    case h_2 hnone =>
      cases h
      rw [hexPairs?_eq_some.mpr htaken] at hnone
      cases hnone
  | error fault =>
    rw [bytesOf, hpayload] at h
    obtain rfl : fault = .notHex digits := Except.error.inj h
    unfold replyPayload payload at hpayload
    split at hpayload
    · cases hpayload
    · split at hpayload <;> cases hpayload

theorem Says.bytesOf (h : Says reply bytes) : bytesOf reply = .ok bytes := by
  obtain ⟨digits, hcarries, hspells⟩ := h
  exact bytesOf_eq_ok.mpr ⟨digits, hcarries, hspells.taken⟩

theorem bytesOf_of_says (h : ∃ bytes, Says reply bytes) : ∃ bytes, bytesOf reply = .ok bytes :=
  h.imp fun _ htold => htold.bytesOf

/-! ## Memory -/

/-- The replies up to one of them say bytes, so that it is come to. -/
def Leads (front : List PacketBytes) (reply : PacketBytes) (replies : List PacketBytes) : Prop :=
  (∃ back, replies = front ++ reply :: back) ∧ ∀ x ∈ front, ∃ bytes, Says x bytes

/-- Memory is read just in case all replies say bytes, and is theirs; else what is not hexadecimal is refused. -/
structure MemoryChecked (replies : List PacketBytes) : Prop where
  read : ∀ data, memoryOf replies = .ok data ↔ ∃ parts, List.Forall₂ Says replies parts ∧ data = parts.flatten
  refused : ∀ front reply digits, Leads front reply replies → Carries reply digits →
    (∀ bytes, ¬ Spells bytes digits) → memoryOf replies = .error (.notHex digits)

/-- No reply that is come to is taken for bytes because of a sign. -/
def NoneSigned (replies : List PacketBytes) : Prop :=
  ∀ front reply digits, Leads front reply replies → Carries reply digits → ¬ Signed digits

theorem MemoryChecked.noneSigned (h : MemoryChecked replies) : NoneSigned replies := by
  rintro front reply digits hleads hcarries hsigned
  have hrefused := h.refused front reply digits hleads hcarries fun _ => hsigned.not_spells
  rw [memoryOf_eq] at hrefused
  rcases mapM_cases bytesOf replies with ⟨parts, hparts, -⟩ | ⟨_, _, _, fault, -, -, hfault, hfail⟩
  · rw [hparts] at hrefused
    cases hrefused
  · rw [hfail] at hrefused
    obtain rfl : fault = .notHex digits := Except.error.inj hrefused
    obtain ⟨bytes, htaken⟩ := hsigned.2
    exact not_taken_of_bytesOf hfault htaken

theorem NoneSigned.tail {x : PacketBytes} (h : NoneSigned (x :: replies)) (hx : ∃ bytes, Says x bytes) :
    NoneSigned replies := by
  rintro front reply digits ⟨⟨back, rfl⟩, hfront⟩ hcarries
  exact h (x :: front) reply digits ⟨⟨back, rfl⟩, List.forall_mem_cons.mpr ⟨hx, hfront⟩⟩ hcarries

theorem NoneSigned.says_head {x : PacketBytes} (h : NoneSigned (x :: replies)) (hx : bytesOf x = .ok part) :
    Says x part := by
  obtain ⟨digits, hcarries, htaken⟩ := bytesOf_eq_ok.mp hx
  exact ⟨digits, hcarries,
    htaken.spells_of_not_signed (h [] x digits ⟨⟨replies, rfl⟩, List.forall_mem_nil _⟩ hcarries)⟩

theorem NoneSigned.says (h : NoneSigned replies) {parts : List (List UInt8)}
    (hparts : List.Forall₂ (fun x part => bytesOf x = .ok part) replies parts) : List.Forall₂ Says replies parts := by
  induction hparts with
  | nil => exact .nil
  | cons hx _ ih =>
    have htold := h.says_head hx
    exact .cons htold (ih (h.tail ⟨_, htold⟩))

theorem NoneSigned.memoryChecked (h : NoneSigned replies) : MemoryChecked replies where
  read data := by
    simp only [memoryOf_eq, bind_eq_ok_iff, mapM_eq_ok_iff, Except.ok.injEq]
    constructor
    · rintro ⟨parts, hparts, rfl⟩
      exact ⟨parts, h.says hparts, rfl⟩
    · rintro ⟨parts, htold, rfl⟩
      exact ⟨parts, htold.imp fun _ _ => Says.bytesOf, rfl⟩
  refused front reply digits hleads hcarries hspells := by
    have hfault : bytesOf reply = .error (.notHex digits) := by
      rw [hcarries.bytesOf]
      exact ofHex_eq_error fun bytes htaken =>
        hspells bytes (htaken.spells_of_not_signed (h front reply digits hleads hcarries))
    obtain ⟨⟨back, rfl⟩, hfront⟩ := hleads
    rw [memoryOf_eq, mapM_of_error (fun x hx => bytesOf_of_says (hfront x hx)) hfault]
    rfl

/-! ## Registers -/

/-- Registers are read just in case the reply says their bytes; else its payload is refused. -/
structure RegistersChecked (reply : PacketBytes) : Prop where
  read : ∀ registers, registersOf reply = .ok registers ↔ ∃ digits, Carries reply digits ∧
    digits.length % 8 = 0 ∧ Spells (registers.flatMap wordBytes) digits
  refused : ∀ digits, Carries reply digits → (digits.length % 8 = 0 → ∀ bytes, ¬ Spells bytes digits) →
    registersOf reply = .error (.notHex digits)

theorem flatMap_wordsOf (h : bytes.length % 4 = 0) : (wordsOf bytes).flatMap wordBytes = bytes := by
  fun_induction wordsOf bytes with
  | case1 a b c d rest ih =>
    rw [List.flatMap_cons, wordBytes_wordOfBytes, ih (by simp only [List.length_cons] at h; omega)]
    rfl
  | case2 bytes hshort =>
    match bytes, h with
    | [], _ => rfl
    | a :: b :: c :: d :: rest, _ => exact absurd rfl (hshort a b c d rest)

theorem registersOf_eq (h : Carries reply digits) : registersOf reply =
    if digits.length % 8 ≠ 0 then .error (.notHex digits) else ofHex digits >>= fun bytes => .ok (wordsOf bytes) := by
  unfold registersOf
  rw [replyPayload_eq_ok.mpr h]
  rfl

theorem registersOf_eq_ok {registers : List UInt32} : registersOf reply = .ok registers ↔
    ∃ digits bytes, Carries reply digits ∧ digits.length % 8 = 0 ∧ Taken bytes digits ∧ registers = wordsOf bytes := by
  constructor
  · intro h
    obtain ⟨digits, hpayload, -⟩ := ok_of_bind h
    have hcarries := replyPayload_eq_ok.mp hpayload
    rw [registersOf_eq hcarries] at h
    split at h
    case isTrue => cases h
    case isFalse hlength =>
      obtain ⟨bytes, hbytes, h⟩ := ok_of_bind h
      exact ⟨digits, bytes, hcarries, not_not.mp hlength, ofHex_eq_ok.mp hbytes, (Except.ok.inj h).symm⟩
  · rintro ⟨digits, bytes, hcarries, hlength, htaken, rfl⟩
    rw [registersOf_eq hcarries, if_neg (not_not.mpr hlength), ofHex_eq_ok.mpr htaken]
    rfl

theorem RegistersChecked.not_signed (h : RegistersChecked reply) (hcarries : Carries reply digits)
    (hlength : digits.length % 8 = 0) : ¬ Signed digits := by
  intro hsigned
  have hrefused := h.refused digits hcarries fun _ _ => hsigned.not_spells
  obtain ⟨bytes, htaken⟩ := hsigned.2
  rw [registersOf_eq_ok.mpr ⟨digits, bytes, hcarries, hlength, htaken, rfl⟩] at hrefused
  cases hrefused

theorem registersChecked_of_not_signed
    (h : ∀ digits, Carries reply digits → digits.length % 8 = 0 → ¬ Signed digits) : RegistersChecked reply where
  read registers := by
    rw [registersOf_eq_ok]
    constructor
    · rintro ⟨digits, bytes, hcarries, hlength, htaken, rfl⟩
      have hspells := htaken.spells_of_not_signed (h digits hcarries hlength)
      have hdigits := hspells.length_digits
      have hwhole : bytes.length % 4 = 0 := by omega
      rw [← flatMap_wordsOf hwhole] at hspells
      exact ⟨digits, hcarries, hlength, hspells⟩
    · rintro ⟨digits, hcarries, hlength, hspells⟩
      exact ⟨digits, _, hcarries, hlength, hspells.taken, (wordsOf_flatMap registers).symm⟩
  refused digits hcarries hspells := by
    rw [registersOf_eq hcarries]
    split
    case isTrue => rfl
    case isFalse hlength =>
      have hlength := not_not.mp hlength
      rw [ofHex_eq_error fun bytes htaken =>
        hspells hlength bytes (htaken.spells_of_not_signed (h digits hcarries hlength))]
      rfl

/--
Memory and registers are read and refused as the digits of the replies tell, just in case none of those that are come
to is taken for digits because of a plus sign.
-/
theorem payloads_checked_iff (replies : List PacketBytes) (reply : PacketBytes) :
    (MemoryChecked replies ↔ NoneSigned replies) ∧
      (RegistersChecked reply ↔ ∀ digits, Carries reply digits → digits.length % 8 = 0 → ¬ Signed digits) :=
  ⟨⟨MemoryChecked.noneSigned, NoneSigned.memoryChecked⟩, fun h _ => h.not_signed, registersChecked_of_not_signed⟩

/-- A byte in two characters, the first of which is a sign. -/
def signedByte : PacketBytes := codes "$+5#60"

/-- A register whose first byte has a sign. -/
def signedRegister : PacketBytes := codes "$+5000000#80"

/-- Both replies are taken for digits. -/
theorem not_checked_signed : ¬ MemoryChecked [signedByte] ∧ ¬ RegistersChecked signedRegister := by
  have hbyte : Carries signedByte (codes "+5") := ⟨by decide +kernel, by decide +kernel⟩
  have hregister : Carries signedRegister (codes "+5000000") := ⟨by decide +kernel, by decide +kernel⟩
  have hbyteSigned : Signed (codes "+5") :=
    ⟨by decide +kernel, [5], hexPairs?_eq_some.mp (by decide +kernel)⟩
  have hregisterSigned : Signed (codes "+5000000") :=
    ⟨by decide +kernel, [5, 0, 0, 0], hexPairs?_eq_some.mp (by decide +kernel)⟩
  constructor
  · intro hchecked
    exact hchecked.noneSigned [] signedByte _ ⟨⟨[], rfl⟩, List.forall_mem_nil _⟩ hbyte hbyteSigned
  · intro hchecked
    exact hchecked.not_signed hregister (by decide +kernel) hregisterSigned

end FirmwareDebug.Remote
