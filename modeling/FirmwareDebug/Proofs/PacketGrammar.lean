import FirmwareDebug.Proofs.HexDigits

/-!
# Which bytes are packets

A packet is accepted for its marks and its sum, and an error reply for the letter and the number in its body. Both
numbers are read as numbers with a sign are, so that a plus sign may stand where a digit should: that is the only way
in which more is accepted than packets.
-/

namespace FirmwareDebug.Remote

variable {packet body : PacketBytes} {first second : UInt8}

/-- The sum of a body's bytes, as far as it fits a byte. -/
def sumOf (body : PacketBytes) : Nat := (body.map UInt8.toNat).sum % 256

/-- A body between the marks and the two bytes behind them. -/
def Framed (packet body : PacketBytes) (first second : UInt8) : Prop :=
  packet = startMark :: (body ++ [endMark, first, second])

instance (packet body : PacketBytes) (first second : UInt8) : Decidable (Framed packet body first second) :=
  inferInstanceAs (Decidable (_ = _))

/-- A packet with its body: the sum of the body is written in two digits. -/
def IsPacket (packet body : PacketBytes) : Prop :=
  ∃ first second, Framed packet body first second ∧ Writes (sumOf body) first second

/-- A plus sign and one digit stand where the sum of the body should. -/
def HasSignedSum (packet body : PacketBytes) : Prop :=
  ∃ first second, Framed packet body first second ∧ WritesSigned (sumOf body) first second

/-- A packet with the letter of an error and the two bytes of its number. -/
def IsErrorWith (packet : PacketBytes) (first second : UInt8) : Prop := IsPacket packet [code 'E', first, second]

/-- Just the packets are accepted, and errors are just the packets with a letter and two digits. -/
structure FollowsGrammar (packet : PacketBytes) : Prop where
  isValid_iff : isValid packet = true ↔ ∃ body, IsPacket packet body
  payload_iff : ∀ data, payload packet = .ok data ↔ ∃ body, IsPacket packet body ∧ data = unescape body
  errorNumber_iff : ∀ number, errorNumber? packet = some number ↔
    ∃ first second, IsErrorWith packet first second ∧ Writes number.toNat first second

/-! ## What is accepted -/

@[simp]
theorem toNat_checksum (body : PacketBytes) : (checksum body).toNat = sumOf body := by
  have hfold : ∀ (start : UInt8), (body.foldl (· + ·) start).toNat =
      (start.toNat + (body.map UInt8.toNat).sum) % 256 := by
    induction body with
    | nil => exact fun start => (Nat.mod_eq_of_lt start.toNat_lt).symm
    | cons b rest ih =>
      intro start
      rw [List.foldl_cons, ih, UInt8.toNat_add, List.map_cons, List.sum_cons, Nat.mod_add_mod, Nat.add_assoc]
  simpa [checksum, sumOf] using hfold 0

theorem Framed.unique {other : PacketBytes} {first' second' : UInt8} (h : Framed packet body first second)
    (hother : Framed packet other first' second') : body = other ∧ first = first' ∧ second = second' := by
  have hsame := List.cons.inj (h.symm.trans hother)
  obtain ⟨hbody, hbehind⟩ := List.append_inj' hsame.2 rfl
  simp only [List.cons.injEq, and_true, true_and] at hbehind
  exact ⟨hbody, hbehind⟩

theorem body?_eq_some_framed : body? packet = some body ↔
    ∃ first second, Framed packet body first second ∧ hexPair? first second = some (checksum body) := by
  constructor
  · intro h
    match packet, h with
    | start :: rest, h =>
      simp only [body?, bodyBefore?] at h
      split at h
      case isFalse => cases h
      case isTrue hstart =>
        split at h
        case h_2 => cases h
        case h_1 mark first second hbehind =>
          split at h
          case isFalse => cases h
          case isTrue hsum =>
            obtain ⟨rfl, hsum⟩ := hsum
            obtain rfl := Option.some.inj h
            refine ⟨first, second, ?_, hsum⟩
            rw [Framed, hstart, ← hbehind, List.take_append_drop]
  · rintro ⟨first, second, rfl, hsum⟩
    simp [body?, bodyBefore?, hsum]

/-- What is accepted is a packet, or its sum has a sign. -/
theorem body?_eq_some : body? packet = some body ↔ IsPacket packet body ∨ HasSignedSum packet body := by
  simp only [body?_eq_some_framed, hexPair?_eq_some, toNat_checksum, IsPacket, HasSignedSum, and_or_left, exists_or]

theorem IsPacket.body? (h : IsPacket packet body) : body? packet = some body := body?_eq_some.mpr (.inl h)

theorem HasSignedSum.not_isPacket {other : PacketBytes} (h : HasSignedSum packet body) : ¬ IsPacket packet other := by
  obtain ⟨first, second, hframed, hplus, -⟩ := h
  rintro ⟨first', second', hframed', hwrites⟩
  obtain ⟨-, rfl, -⟩ := hframed.unique hframed'
  rw [← toNat_checksum] at hwrites
  exact hwrites.ne_plus hplus

theorem isValid_eq_true : isValid packet = true ↔ ∃ body, body? packet = some body := Option.isSome_iff_exists

theorem payload_eq_ok {data : PacketBytes} :
    payload packet = .ok data ↔ ∃ body, body? packet = some body ∧ data = unescape body := by
  unfold payload
  cases body? packet with
  | none => simp
  | some body => simp [eq_comm]

theorem errorNumber?_eq_some {number : UInt8} : errorNumber? packet = some number ↔
    ∃ first second, body? packet = some [code 'E', first, second] ∧ hexPair? first second = some number := by
  unfold errorNumber?
  split
  case h_1 letter first second hbody =>
    rw [hbody]
    constructor
    · intro h
      split at h
      case isFalse => cases h
      case isTrue hletter => exact ⟨first, second, by rw [hletter], h⟩
    · rintro ⟨first', second', hsame, hpair⟩
      cases hsame
      rwa [if_pos rfl]
  case h_2 hother =>
    refine ⟨nofun, ?_⟩
    rintro ⟨first, second, hbody, -⟩
    exact absurd hbody (hother _ _ _)

/-! ## Where a sign is accepted -/

theorem HasSignedSum.not_followsGrammar (h : HasSignedSum packet body) : ¬ FollowsGrammar packet := by
  intro hfollows
  obtain ⟨other, hother⟩ := hfollows.isValid_iff.mp (isValid_eq_true.mpr ⟨body, body?_eq_some.mpr (.inr h)⟩)
  exact h.not_isPacket hother

theorem IsErrorWith.not_followsGrammar {number : UInt8} (h : IsErrorWith packet first second)
    (hsigned : WritesSigned number.toNat first second) : ¬ FollowsGrammar packet := by
  intro hfollows
  have hnumber := errorNumber?_eq_some.mpr ⟨first, second, h.body?, hexPair?_eq_some.mpr (.inr hsigned)⟩
  obtain ⟨first', second', hpacket, hwrites⟩ := (hfollows.errorNumber_iff number).mp hnumber
  obtain rfl : first = first' := by
    have hsame := Option.some.inj (h.body?.symm.trans hpacket.body?)
    simpa using (List.cons.inj (List.cons.inj hsame).2).1
  exact hwrites.ne_plus hsigned.1

/--
Just the packets are accepted, with just the errors among them, unless a plus sign and a digit stand for the sum of
a body or for the number of an error.
-/
theorem followsGrammar_iff (packet : PacketBytes) : FollowsGrammar packet ↔
    (∀ body, ¬ HasSignedSum packet body) ∧ ∀ first second, IsErrorWith packet first second →
      ∀ number : UInt8, ¬ WritesSigned number.toNat first second := by
  constructor
  · intro hfollows
    exact ⟨fun body hsum => hsum.not_followsGrammar hfollows,
      fun first second herror number hsigned => herror.not_followsGrammar hsigned hfollows⟩
  · rintro ⟨hsums, hnumbers⟩
    have hbody : ∀ {body}, body? packet = some body ↔ IsPacket packet body := fun {body} =>
      body?_eq_some.trans (or_iff_left (hsums body))
    refine ⟨by simp only [isValid_eq_true, hbody], fun data => by simp only [payload_eq_ok, hbody], fun number => ?_⟩
    rw [errorNumber?_eq_some]
    refine exists_congr fun first => exists_congr fun second => ?_
    rw [hbody, hexPair?_eq_some]
    exact and_congr_right fun herror => or_iff_left (hnumbers first second herror number)

/-- An empty body whose sum is written with a sign. -/
def signedSum : PacketBytes := codes "$#+0"

/-- The error 5, written with a sign. -/
def signedError : PacketBytes := codes "$E+5#a5"

/-- Both are accepted, the first one as a packet and the second one as an error. -/
theorem not_followsGrammar_signed : ¬ FollowsGrammar signedSum ∧ ¬ FollowsGrammar signedError := by
  have hsum : HasSignedSum signedSum [] := ⟨code '+', code '0', by decide +kernel, by decide +kernel⟩
  have herror : IsErrorWith signedError (code '+') (code '5') :=
    ⟨code 'a', code '5', by decide +kernel, by decide +kernel⟩
  have hnumber : WritesSigned (5 : UInt8).toNat (code '+') (code '5') := by decide +kernel
  exact ⟨hsum.not_followsGrammar, herror.not_followsGrammar hnumber⟩

end FirmwareDebug.Remote
