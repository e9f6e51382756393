import FirmwareDebug.Proofs.HexDigits
import FirmwareDebug.Proofs.Number
import FirmwareDebug.Remote.Request
import Mathlib.Data.List.Forall2
import Mathlib.Data.List.Nodup

/-!
# Memory that is read in chunks

A long read is cut into requests, the remote end answers each of them with the digits of the bytes that it
asks for, and the answers are put together again. Nothing is lost on the way, also where addresses wrap
around: the requests name every byte once, and digits come in pairs, so that no data looks like the three
characters of an error.
-/

namespace FirmwareDebug.Remote

open Text

/-! ## Requests for memory -/

/-- A part of the memory. -/
structure Chunk where
  address : UInt32
  count : Nat
  deriving DecidableEq, Repr

namespace Chunk

/-- The addresses of the bytes in order; behind the last one comes the first one. -/
def addresses (chunk : Chunk) : List UInt32 :=
  (List.range chunk.count).map fun i => chunk.address + UInt32.ofNat i

def contents (memory : UInt32 → UInt8) (chunk : Chunk) : List UInt8 := chunk.addresses.map memory

theorem addresses_add (address : UInt32) (n m : Nat) : addresses ⟨address, n + m⟩ =
    addresses ⟨address, n⟩ ++ addresses ⟨address + UInt32.ofNat n, m⟩ := by
  simp [addresses, List.range_add, UInt32.add_assoc, Function.comp_def]

theorem nodup_addresses {address : UInt32} {count : Nat} (h : count ≤ UInt32.size) :
    (addresses ⟨address, count⟩).Nodup := by
  refine List.Nodup.map_on ?_ List.nodup_range
  intro i hi j hj heq
  have hoffsets : UInt32.ofNat i = UInt32.ofNat j := by simpa using heq
  have hvalues := congrArg UInt32.toNat hoffsets
  have hilt : i < UInt32.size := (List.mem_range.mp hi).trans_le h
  have hjlt : j < UInt32.size := (List.mem_range.mp hj).trans_le h
  rwa [UInt32.toNat_ofNat_of_lt' hilt, UInt32.toNat_ofNat_of_lt' hjlt] at hvalues

end Chunk

/-- The number that some digits write. -/
def number? (digits : PacketBytes) : Option Nat :=
  if digits = [] then none
  else digits.foldlM (fun n digit => do return 16 * n + (← hexDigit? (Char.ofNat digit.toNat))) 0

/-- The chunk that a request names: a letter, an address, a comma and a number of bytes. -/
def chunk? (request : PacketBytes) : Option Chunk :=
  match payload request with
  | .ok (letter :: text) => do
    let address ← number? (text.takeWhile (· ≠ code ','))
    let count ← number? (text.dropWhile (· ≠ code ',')).tail
    if letter = code 'm' ∧ address < UInt32.size then some ⟨UInt32.ofNat address, count⟩ else none
  | _ => none

theorem toList_loop (array : ByteArray) (i : Nat) (front : List UInt8) :
    ByteArray.toList.loop array i front = front.reverse ++ array.data.toList.drop i := by
  fun_induction ByteArray.toList.loop array i front with
  | case1 i front h ih =>
    have hget : array.get! i = array.data.toList.get ⟨i, h⟩ := by
      simp [ByteArray.get!, getElem!_pos array.data i h]
    rw [ih, List.drop_eq_getElem_cons h, hget]
    simp
  | case2 i front h =>
    rw [List.drop_eq_nil_of_le (Nat.le_of_not_lt h), List.append_nil]

theorem codes_eq (text : String) : codes text = text.toByteArray.data.toList := by
  rw [codes, String.toUTF8_eq_toByteArray, ByteArray.toList, toList_loop]
  rfl

@[simp]
theorem codes_append (text more : String) : codes (text ++ more) = codes text ++ codes more := by
  simp [codes_eq, ByteArray.data_append]

theorem codes_hex (n : Nat) : codes (hex n) = (Nat.toDigits 16 n).map code := by
  have hall : ∀ chars : List Char, (∀ c ∈ chars, ∃ d < 16, c = d.digitChar) →
      chars.utf8Encode.data.toList = chars.map code := by
    intro chars hchars
    induction chars with
    | nil => rfl
    | cons c chars ih =>
      obtain ⟨d, hd, rfl⟩ := hchars c List.mem_cons_self
      have hcode : (String.utf8EncodeChar d.digitChar).toByteArray.data.toList = [code d.digitChar] :=
        (by decide +kernel : ∀ v < 16, (String.utf8EncodeChar v.digitChar).toByteArray.data.toList =
          [code v.digitChar]) d hd
      rw [List.utf8Encode_cons, List.utf8Encode_singleton, ByteArray.data_append, Array.toList_append, hcode,
        ih fun c hc => hchars c (List.mem_cons_of_mem _ hc)]
      rfl
  rw [codes_eq, hex, String.toByteArray_ofList]
  exact hall _ fun c hc => digit_of_mem_toDigits (by omega) hc

@[simp]
theorem number?_hex (n : Nat) : number? (codes (hex n)) = some n := by
  have hfold : ∀ n, ((Nat.toDigits 16 n).map code).foldlM
      (fun n digit => do return 16 * n + (← hexDigit? (Char.ofNat digit.toNat))) 0 = some n := by
    intro n
    induction n using Nat.strongRecOn with
    | ind n ih =>
      rw [Nat.toDigits_eq_if (by omega)]
      split
      case isTrue hlt =>
        have hdigit := (IsDigit.read (.inl rfl) hlt).1
        simp [hdigit]
      case isFalse hge =>
        have hdigit := (IsDigit.read (.inl rfl) (Nat.mod_lt n (by omega : 0 < 16))).1
        have hvalue : 16 * (n / 16) + n % 16 = n := Nat.div_add_mod n 16
        rw [List.map_append, List.foldlM_append, ih (n / 16) (Nat.div_lt_self (by omega) (by omega))]
        simp [hdigit, hvalue]
  have hsome : (Nat.toDigits 16 n).map code ≠ [] := by
    rw [ne_eq, List.map_eq_nil_iff]
    exact Nat.toDigits_ne_nil
  rw [number?, codes_hex, if_neg hsome, hfold]

theorem comma_not_mem_hex (n : Nat) : code ',' ∉ codes (hex n) := by
  rw [codes_hex, List.mem_map]
  rintro ⟨c, hc, hcomma⟩
  obtain ⟨d, hd, rfl⟩ := digit_of_mem_toDigits (by omega) hc
  exact (by decide +kernel : ∀ v < 16, code v.digitChar ≠ code ',') d hd hcomma

theorem codes_readMemory (address count : String) :
    codes ("m" ++ address ++ "," ++ count) = code 'm' :: (codes address ++ code ',' :: codes count) := by
  have hletter : codes "m" = [code 'm'] := by decide +kernel
  have hcomma : codes "," = [code ','] := by decide +kernel
  rw [codes_append, codes_append, codes_append, hletter, hcomma]
  simp

@[simp]
theorem chunk?_packet (address count : UInt32) :
    chunk? (Request.readMemory address count).packet = some ⟨address, count.toNat⟩ := by
  have hfits : address.toNat < UInt32.size := address.toNat_lt
  have htext : (Request.readMemory address count).text = "m" ++ hex address.toNat ++ "," ++ hex count.toNat := rfl
  rw [chunk?, Request.packet, payload_frame, htext, codes_readMemory]
  simp only [takeWhile_ne_append (comma_not_mem_hex _), dropWhile_ne_append (comma_not_mem_hex _), List.tail_cons,
    number?_hex]
  simp [hfits]

/-! ## Reading a range -/

/-- Chunks that make up a range: none of them is empty or too long, and together they are every address once. -/
structure Tiles (limit : Nat) (whole : Chunk) (chunks : List Chunk) : Prop where
  sized : ∀ chunk ∈ chunks, 1 ≤ chunk.count ∧ chunk.count ≤ max limit 1
  inOrder : chunks.flatMap Chunk.addresses = whole.addresses
  apart : (chunks.flatMap Chunk.addresses).Nodup

/-- A reply that writes the bytes that a request asks for. -/
def Answers (memory : UInt32 → UInt8) (request reply : PacketBytes) : Prop :=
  ∃ chunk digits, chunk? request = some chunk ∧ Spells (chunk.contents memory) digits ∧ reply = frame digits

theorem chunks_readChunks (limit : Nat) (address : UInt32) (length : Nat) (h : length < UInt32.size) :
    ∃ chunks, ((Request.readChunks limit address length).map Request.packet).mapM chunk? = some chunks ∧
      (∀ chunk ∈ chunks, 1 ≤ chunk.count ∧ chunk.count ≤ max limit 1) ∧
      chunks.flatMap Chunk.addresses = Chunk.addresses ⟨address, length⟩ := by
  fun_induction Request.readChunks limit address length with
  | case1 address => exact ⟨[], rfl, by simp, rfl⟩
  | case2 address length hpos part ih =>
    obtain ⟨chunks, hchunks, hsized, haddresses⟩ := ih (by omega)
    have hle : part ≤ length := Nat.min_le_left _ _
    -- A request has room for its count, as it has for the whole length.
    have hcount : (UInt32.ofNat part).toNat = part := UInt32.toNat_ofNat_of_lt' (by omega)
    refine ⟨⟨address, part⟩ :: chunks, ?_, ?_, ?_⟩
    · simp only [List.map_cons, List.mapM_cons, chunk?_packet, hchunks, hcount]
      rfl
    · intro chunk hchunk
      rcases List.mem_cons.mp hchunk with rfl | hlater
      · have hone : 1 ≤ max limit 1 := Nat.le_max_right _ _
        exact ⟨Nat.le_min.mpr ⟨by omega, hone⟩, Nat.min_le_right _ _⟩
      · exact hsized chunk hlater
    · rw [List.flatMap_cons, haddresses, ← Chunk.addresses_add, Nat.add_sub_cancel' hle]

theorem tiles_readChunks (limit address length : UInt32) : ∃ chunks,
    ((Request.readChunks limit.toNat address length.toNat).map Request.packet).mapM chunk? = some chunks ∧
      Tiles limit.toNat ⟨address, length.toNat⟩ chunks := by
  have hlt : length.toNat < UInt32.size := length.toNat_lt
  obtain ⟨chunks, hchunks, hsized, haddresses⟩ := chunks_readChunks limit.toNat address length.toNat hlt
  refine ⟨chunks, hchunks, hsized, haddresses, ?_⟩
  rw [haddresses]
  exact Chunk.nodup_addresses hlt.le

variable {memory : UInt32 → UInt8} {requests replies : List PacketBytes} {chunks : List Chunk} {whole : Chunk}

theorem mapM_of_answers (hchunks : requests.mapM chunk? = some chunks)
    (h : List.Forall₂ (Answers memory) requests replies) :
    replies.mapM (fun reply => do ofHex (← replyPayload reply)) = .ok (chunks.map (Chunk.contents memory)) := by
  induction h generalizing chunks with
  | nil =>
    cases hchunks
    rfl
  | @cons request reply requests replies hanswer _ ih =>
    obtain ⟨chunk, digits, hchunk, hspells, rfl⟩ := hanswer
    simp only [List.mapM_cons, hchunk, Option.bind_eq_bind, Option.bind_some, Option.bind_eq_some_iff] at hchunks
    obtain ⟨others, hothers, heq⟩ := hchunks
    cases heq
    simp only [List.mapM_cons, hspells.replyPayload, ih hothers]
    simp [hspells.ofHex, Bind.bind, Except.bind, pure, Except.pure]

theorem contents_of_inOrder (h : chunks.flatMap Chunk.addresses = whole.addresses) :
    (chunks.map (Chunk.contents memory)).flatten = whole.contents memory := by
  rw [Chunk.contents, ← h, List.map_flatMap, List.flatMap]
  rfl

/--
The requests for a range name chunks that are the range, in order and without overlap, and the answers to them
are its bytes. Registers are read back from their digits, and no data is taken for an error.
-/
theorem readChunks_lossless (address length limit : UInt32) :
    let requests := (Request.readChunks limit.toNat address length.toNat).map Request.packet
    (∃ chunks, requests.mapM chunk? = some chunks ∧ Tiles limit.toNat ⟨address, length.toNat⟩ chunks) ∧
      (∀ memory replies, List.Forall₂ (Answers memory) requests replies →
        memoryOf replies = .ok (Chunk.contents memory ⟨address, length.toNat⟩)) ∧
      (∀ registers digits, Spells (registers.flatMap wordBytes) digits → registersOf (frame digits) = .ok registers) ∧
      ∀ bytes digits, Spells bytes digits → errorNumber? (frame digits) = none := by
  intro requests
  obtain ⟨chunks, hchunks, htiles⟩ := tiles_readChunks limit address length
  refine ⟨⟨chunks, hchunks, htiles⟩, ?_, fun _ _ h => registersOf_frame h, fun _ _ h => h.errorNumber?⟩
  intro memory replies h
  have hparts := mapM_of_answers hchunks h
  simp only [memoryOf, hparts, ← contents_of_inOrder htiles.inOrder]
  rfl

/-- The last byte of the address space and the first one, whose digits start like an error. -/
def endsMemory (address : UInt32) : UInt8 := if address = 0 then 0xe0 else 0x1f

def endsReplies : List PacketBytes := [frame (codes "1F"), frame (codes "E0")]

theorem readChunks_lossless_ends :
    List.Forall₂ (Answers endsMemory) ((Request.readChunks 1 0xffffffff 2).map Request.packet) endsReplies ∧
      memoryOf endsReplies = .ok [0x1f, 0xe0] ∧
      Spells ([0xe000001f].flatMap wordBytes) (codes "1f0000E0") ∧
      registersOf (frame (codes "1f0000E0")) = .ok [0xe000001f] ∧
      Spells [0xe0] (codes "E0") ∧ errorNumber? (frame (codes "E0")) = none := by
  obtain ⟨-, hread, hregisters, herror⟩ := readChunks_lossless 0xffffffff 2 1
  have hlast : Spells [0x1f] (codes "1F") := by decide +kernel
  have hfirst : Spells [0xe0] (codes "E0") := by decide +kernel
  have hword : Spells ([0xe000001f].flatMap wordBytes) (codes "1f0000E0") := by decide +kernel
  have hrequests : (Request.readChunks 1 0xffffffff 2).map Request.packet =
      [(Request.readMemory 0xffffffff 1).packet, (Request.readMemory 0 1).packet] := by
    simp [Request.readChunks]
  have hanswers : List.Forall₂ (Answers endsMemory)
      ((Request.readChunks 1 0xffffffff 2).map Request.packet) endsReplies := by
    rw [hrequests]
    exact .cons ⟨_, _, chunk?_packet _ _, hlast, rfl⟩ (.cons ⟨_, _, chunk?_packet _ _, hfirst, rfl⟩ .nil)
  exact ⟨hanswers, hread endsMemory endsReplies hanswers, hword, hregisters _ _ hword, hfirst, herror _ _ hfirst⟩

end FirmwareDebug.Remote
