import FirmwareDebug.Remote.Reply
import Mathlib.Data.List.TakeWhile

/-!
# Packets in a stream that arrives in pieces

The probe's bytes arrive in chunks that are cut anywhere, with noise between the packets, and the
buffer is asked for a packet whenever it suits the reader. The packets that come out are those that
were sent: escaping keeps the end mark out of a body, so a packet is recognised by its own bytes and
what arrives later never changes it.
-/

namespace FirmwareDebug.Remote

open Text

variable {data noise packet received more rest : PacketBytes}

/-! ## Escaping -/

theorem unescape_cons {b : UInt8} (h : b ≠ escapeMark) (rest : PacketBytes) :
    unescape (b :: rest) = b :: unescape rest := by
  cases rest with
  | nil => simp [unescape, h]
  | cons next rest => simp [unescape, h]

@[simp]
theorem unescape_escape (data : PacketBytes) : unescape (escape data) = data := by
  induction data with
  | nil => rfl
  | cons b rest ih =>
    by_cases hb : isSpecial b = true
    · have hchange : b ^^^ escapeChange ^^^ escapeChange = b := by
        rw [UInt8.xor_assoc, UInt8.xor_self, UInt8.xor_zero]
      simp [escape, unescape, hb, hchange, ih]
    · have hplain : b ≠ escapeMark := by
        rintro rfl
        exact hb rfl
      simp [escape, hb, unescape_cons hplain, ih]

theorem escaped_ne_endMark {b : UInt8} (h : isSpecial b = true) : b ^^^ escapeChange ≠ endMark := by
  simp only [isSpecial, Bool.or_eq_true, decide_eq_true_eq] at h
  rcases h with (rfl | rfl) | rfl <;> decide

theorem endMark_not_mem_escape (data : PacketBytes) : endMark ∉ escape data := by
  induction data with
  | nil => simp [escape]
  | cons b rest ih =>
    by_cases hb : isSpecial b = true
    · have hmark : endMark ≠ escapeMark := by decide
      simp [escape, hb, hmark, (escaped_ne_endMark hb).symm, ih]
    · have hplain : endMark ≠ b := by
        rintro rfl
        exact hb rfl
      simp [escape, hb, hplain, ih]

/-! ## One packet -/

@[simp]
theorem hexPairs?_hexByte (b : UInt8) : hexPairs? (codes (hexByte b)) = some [b] := by
  have hall : ∀ n : Fin 256, hexPairs? (codes (hexByte (UInt8.ofFin n))) = some [UInt8.ofFin n] := by
    decide +kernel
  exact hall b.toFin

theorem digits_hexByte (b : UInt8) :
    ∃ first second, codes (hexByte b) = [first, second] ∧ hexPair? first second = some b := by
  have hpairs := hexPairs?_hexByte b
  match hcodes : codes (hexByte b) with
  | [] => simp [hcodes, hexPairs?] at hpairs
  | [_] => simp [hcodes, hexPairs?] at hpairs
  | first :: second :: rest =>
    simp only [hcodes, hexPairs?, Option.bind_eq_bind, Option.bind_eq_some_iff, Option.pure_def,
      Option.some.injEq, List.cons.injEq] at hpairs
    obtain ⟨b', hpair, others, hothers, rfl, rfl⟩ := hpairs
    refine ⟨first, second, ?_, hpair⟩
    match rest with
    | [] => rfl
    | [_] => simp [hexPairs?] at hothers
    | _ :: _ :: _ => simp [hexPairs?, Option.bind_eq_some_iff] at hothers

theorem frame_eq (data : PacketBytes) : ∃ first second,
    frame data = startMark :: (escape data ++ [endMark, first, second]) ∧
      hexPair? first second = some (checksum (escape data)) := by
  obtain ⟨first, second, hcodes, hpair⟩ := digits_hexByte (checksum (escape data))
  refine ⟨first, second, ?_, hpair⟩
  simp [frame, hcodes]

@[simp]
theorem body?_frame (data : PacketBytes) : body? (frame data) = some (escape data) := by
  obtain ⟨first, second, hframe, hpair⟩ := frame_eq data
  simp [hframe, body?, bodyBefore?, hpair]

@[simp]
theorem payload_frame (data : PacketBytes) : payload (frame data) = .ok data := by
  simp [payload, body?_frame, unescape_escape]

/-! ## The first packet of what was received -/

section

variable {mark : UInt8} {front : PacketBytes}

theorem ne_of_mem_of_not_mem (h : mark ∉ front) : ∀ b ∈ front, decide (b ≠ mark) = true := by
  intro b hb
  simp only [decide_eq_true_eq]
  rintro rfl
  exact h hb

theorem dropWhile_ne_append (h : mark ∉ front) (rest : PacketBytes) :
    (front ++ mark :: rest).dropWhile (· ≠ mark) = mark :: rest := by
  rw [List.dropWhile_append_of_pos (ne_of_mem_of_not_mem h)]
  simp

theorem takeWhile_ne_append (h : mark ∉ front) (rest : PacketBytes) :
    (front ++ mark :: rest).takeWhile (· ≠ mark) = front := by
  rw [List.takeWhile_append_of_pos (ne_of_mem_of_not_mem h)]
  simp

theorem eq_append_of_dropWhile_ne {l : PacketBytes} {b : UInt8}
    (h : l.dropWhile (· ≠ mark) = b :: rest) : ∃ front, b = mark ∧ mark ∉ front ∧ l = front ++ mark :: rest := by
  have hmem : mark ∈ l := by
    by_contra hmem
    rw [List.dropWhile_eq_nil_iff.mpr (ne_of_mem_of_not_mem hmem)] at h
    cases h
  obtain ⟨front, behind, rfl, hfront⟩ := List.eq_append_cons_of_mem hmem
  rw [dropWhile_ne_append hfront] at h
  cases h
  exact ⟨front, rfl, hfront, rfl⟩

end

/-- A packet runs from the first start mark to the second byte behind the first end mark after it. -/
theorem extract?_eq_some : extract? received = some (packet, rest) ↔
    ∃ noise body first second, startMark ∉ noise ∧ endMark ∉ body ∧
      packet = startMark :: (body ++ [endMark, first, second]) ∧ received = noise ++ packet ++ rest := by
  have hmarks : endMark ≠ startMark := by decide
  constructor
  · intro h
    unfold extract? at h
    simp only at h
    split at h
    · rename_i mark first second behind hend
      cases h
      obtain ⟨front, rfl, hfront, hpacket⟩ := eq_append_of_dropWhile_ne hend
      match front with
      | [] =>
        obtain ⟨noise, heq, -, -⟩ := eq_append_of_dropWhile_ne hpacket
        exact absurd heq hmarks
      | b :: body =>
        obtain ⟨noise, rfl, hnoise, rfl⟩ := eq_append_of_dropWhile_ne hpacket
        have hbody : endMark ∉ body := fun hmem => hfront (List.mem_cons_of_mem _ hmem)
        refine ⟨noise, body, first, second, hnoise, hbody, ?_, ?_⟩
        · rw [hpacket, takeWhile_ne_append hfront]
          simp
        · rw [hpacket, takeWhile_ne_append hfront]
          simp
    · cases h
  · rintro ⟨noise, body, first, second, hnoise, hbody, rfl, rfl⟩
    have hfront : endMark ∉ startMark :: body := by
      simp [hmarks, hbody]
    have hstart : (noise ++ startMark :: (body ++ [endMark, first, second]) ++ rest).dropWhile (· ≠ startMark) =
        (startMark :: body) ++ endMark :: first :: second :: rest := by
      rw [List.append_assoc, List.cons_append, dropWhile_ne_append hnoise]
      simp
    unfold extract?
    simp only [hstart, dropWhile_ne_append hfront, takeWhile_ne_append hfront]
    simp

theorem extract?_append (h : extract? received = some (packet, rest)) (more : PacketBytes) :
    extract? (received ++ more) = some (packet, rest ++ more) := by
  rw [extract?_eq_some] at h ⊢
  obtain ⟨noise, body, first, second, hnoise, hbody, hpacket, rfl⟩ := h
  exact ⟨noise, body, first, second, hnoise, hbody, hpacket, List.append_assoc _ _ _⟩

theorem extract?_frame (h : startMark ∉ noise) (data rest : PacketBytes) :
    extract? (noise ++ frame data ++ rest) = some (frame data, rest) := by
  obtain ⟨first, second, hframe, -⟩ := frame_eq data
  exact extract?_eq_some.mpr ⟨noise, escape data, first, second, h, endMark_not_mem_escape data, hframe, rfl⟩

theorem extract?_noise (h : startMark ∉ noise) : extract? noise = none := by
  rw [Option.eq_none_iff_forall_ne_some]
  rintro ⟨packet, rest⟩ hsome
  obtain ⟨front, body, first, second, -, -, rfl, rfl⟩ := extract?_eq_some.mp hsome
  simp at h

/-! ## A reader and its buffer -/

/-- What happens to the buffer: a chunk of bytes arrives, or the reader asks for a packet. -/
inductive Event
  | arrive (chunk : PacketBytes)
  | ask
  deriving DecidableEq, Repr

/-- The packet that is taken out of the buffer and the buffer behind it. Without one it stays. -/
def takePacket (buffer : PacketBytes) : Option PacketBytes × PacketBytes :=
  match extract? buffer with
  | some (packet, rest) => (some packet, rest)
  | none => (none, buffer)

/-- The packets that the reader is given on the way, and the buffer in the end. -/
def runEvents (buffer : PacketBytes) : List Event → List PacketBytes × PacketBytes
  | [] => ([], buffer)
  | .arrive chunk :: events => runEvents (buffer ++ chunk) events
  | .ask :: events =>
    let (packet, rest) := takePacket buffer
    let (packets, last) := runEvents rest events
    (packet.toList ++ packets, last)

def arrived : List Event → PacketBytes
  | [] => []
  | .arrive chunk :: events => chunk ++ arrived events
  | .ask :: events => arrived events

theorem length_lt_of_extract? (h : extract? received = some (packet, rest)) :
    rest.length < received.length := by
  obtain ⟨noise, body, first, second, -, -, rfl, rfl⟩ := extract?_eq_some.mp h
  simp
  omega

/-- The packets that the reader is given when it asks until there is none. -/
def drain (buffer : PacketBytes) : List PacketBytes × PacketBytes :=
  match _h : extract? buffer with
  | some (packet, rest) =>
    let (packets, last) := drain rest
    (packet :: packets, last)
  | none => ([], buffer)
termination_by buffer.length
decreasing_by exact length_lt_of_extract? ‹_›

/-- A payload that is sent, and the noise in front of its packet. -/
structure Transmission where
  noise : PacketBytes
  payload : PacketBytes
  deriving DecidableEq, Repr

/-- The bytes that the probe sends, with noise behind the last packet. -/
def stream (trailing : PacketBytes) : List Transmission → PacketBytes
  | [] => trailing
  | sent :: rest => sent.noise ++ frame sent.payload ++ stream trailing rest

/-- No noise can be taken for the start of a packet. -/
def Quiet (trailing : PacketBytes) (sent : List Transmission) : Prop :=
  startMark ∉ trailing ∧ ∀ transmission ∈ sent, startMark ∉ transmission.noise

variable {trailing buffer unread : PacketBytes} {sent : List Transmission}

theorem Quiet.tail {first : Transmission} (h : Quiet trailing (first :: sent)) : Quiet trailing sent :=
  ⟨h.1, fun transmission hmem => h.2 transmission (List.mem_cons_of_mem _ hmem)⟩

theorem next_of_extract? (hquiet : Quiet trailing sent) (hbuffer : buffer ++ unread = stream trailing sent)
    (h : extract? buffer = some (packet, rest)) :
    ∃ first others, sent = first :: others ∧ packet = frame first.payload ∧
      rest ++ unread = stream trailing others := by
  -- What is found in a part of the stream is found in the whole of it, whose first packet is known.
  have hwhole := extract?_append h unread
  rw [hbuffer] at hwhole
  cases sent with
  | nil =>
    rw [stream, extract?_noise hquiet.1] at hwhole
    cases hwhole
  | cons first others =>
    rw [stream, extract?_frame (hquiet.2 first List.mem_cons_self)] at hwhole
    simp only [Option.some.injEq, Prod.mk.injEq] at hwhole
    exact ⟨first, others, rfl, hwhole.1.symm, hwhole.2.symm⟩

/-- On the way the reader is given the first packets that were sent, and the rest stays to come. -/
theorem runEvents_spec (hquiet : Quiet trailing sent) (events : List Event)
    (hbuffer : buffer ++ (arrived events ++ unread) = stream trailing sent) :
    ∃ front back, sent = front ++ back ∧
      (runEvents buffer events).1 = front.map (fun transmission => frame transmission.payload) ∧
      (runEvents buffer events).2 ++ unread = stream trailing back := by
  induction events generalizing buffer sent with
  | nil => exact ⟨[], sent, rfl, rfl, hbuffer⟩
  | cons event events ih =>
    cases event with
    | arrive chunk => exact ih hquiet (by simpa [arrived] using hbuffer)
    | ask =>
      cases hextract : extract? buffer with
      | none =>
        simp only [runEvents, takePacket, hextract, Option.toList_none, List.nil_append]
        exact ih hquiet hbuffer
      | some found =>
        obtain ⟨packet, rest⟩ := found
        obtain ⟨first, others, rfl, rfl, hrest⟩ := next_of_extract? hquiet hbuffer hextract
        obtain ⟨front, back, rfl, hpackets, hlast⟩ := ih hquiet.tail hrest
        simp only [runEvents, takePacket, hextract, Option.toList_some]
        exact ⟨first :: front, back, rfl, by simp [hpackets], hlast⟩

theorem drain_stream (hquiet : Quiet trailing sent) : drain (stream trailing sent) =
    (sent.map fun transmission => frame transmission.payload, trailing) := by
  induction sent with
  | nil =>
    rw [drain]
    split
    · rename_i hsome
      rw [stream, extract?_noise hquiet.1] at hsome
      cases hsome
    · rfl
  | cons first others ih =>
    have hextract := extract?_frame (hquiet.2 first List.mem_cons_self) first.payload (stream trailing others)
    rw [drain]
    split
    · rename_i hsome
      rw [stream, hextract] at hsome
      cases hsome
      simp [ih hquiet.tail]
    · rename_i hnone
      rw [stream, hextract] at hnone
      cases hnone

/--
However the stream is cut into chunks and whenever the reader asks, it is given the packets that were
sent, in order, and what stays in the buffer is the noise behind them. A question that is not
answered leaves the buffer as it is.
-/
theorem packets_of_stream (trailing : PacketBytes) (sent : List Transmission) (hquiet : Quiet trailing sent)
    (events : List Event) (hevents : arrived events = stream trailing sent) :
    let (early, buffer) := runEvents [] events
    let (late, last) := drain buffer
    early ++ late = sent.map (fun transmission => frame transmission.payload) ∧
      (∀ transmission ∈ sent, payload (frame transmission.payload) = .ok transmission.payload) ∧
      last = trailing ∧ takePacket last = (none, last) ∧
      ∀ buffer after, takePacket buffer = (none, after) → after = buffer := by
  have hstart : [] ++ (arrived events ++ []) = stream trailing sent := by simpa using hevents
  obtain ⟨front, back, rfl, hearly, hbuffer⟩ := runEvents_spec hquiet events hstart
  have hback : Quiet trailing back :=
    ⟨hquiet.1, fun transmission hmem => hquiet.2 transmission (List.mem_append_right _ hmem)⟩
  have hdrain := drain_stream hback
  rw [List.append_nil] at hbuffer
  simp only [hearly, hbuffer, hdrain]
  refine ⟨by simp, fun transmission _ => payload_frame _, trivial, ?_, ?_⟩
  · simp [takePacket, extract?_noise hquiet.1]
  · intro buffer after h
    unfold takePacket at h
    split at h
    · cases h
    · cases h
      rfl

/-- Two packets: the first one holds a start mark, and an end mark stands in front of the second one. -/
def sampleSent : List Transmission := [⟨[0x2b], [0x24, 0x41]⟩, ⟨[0x23], []⟩]

/-- Cuts lie behind an escape mark and inside both sums. -/
def sampleEvents : List Event :=
  [.arrive [0x2b, 0x24, 0x7d], .ask, .arrive [0x04, 0x41, 0x23, 0x63], .ask,
    .arrive [0x32, 0x23, 0x24, 0x23, 0x30], .ask, .ask, .arrive [0x30, 0x2b]]

theorem packets_of_sample : Quiet [0x2b] sampleSent ∧ arrived sampleEvents = stream [0x2b] sampleSent ∧
    let (early, buffer) := runEvents [] sampleEvents
    let (late, last) := drain buffer
    early ++ late = sampleSent.map (fun transmission => frame transmission.payload) ∧
      (∀ transmission ∈ sampleSent, payload (frame transmission.payload) = .ok transmission.payload) ∧
      last = [0x2b] ∧ takePacket last = (none, last) ∧
      ∀ buffer after, takePacket buffer = (none, after) → after = buffer := by
  have hquiet : Quiet [0x2b] sampleSent := by
    constructor <;> decide
  have hevents : arrived sampleEvents = stream [0x2b] sampleSent := by decide +kernel
  exact ⟨hquiet, hevents, packets_of_stream [0x2b] sampleSent hquiet sampleEvents hevents⟩

end FirmwareDebug.Remote
