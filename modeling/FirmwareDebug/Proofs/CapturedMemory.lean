import FirmwareDebug.Proofs.Keeps
import FirmwareDebug.Target

/-!
# Reads of captured memory and of its bytes

A snapshot serves a read out of one image, the first that holds all of it, while its bytes, read one by
one, may come out of several images. The two agree for all ranges exactly if images that touch are parts
of one image, and if the images that are used show the same bytes where they overlap.
-/

namespace FirmwareDebug

theorem toNat_add_ofNat {address : UInt32} {i : Nat} (h : address.toNat + i < 2 ^ 32) :
    (address + UInt32.ofNat i).toNat = address.toNat + i := by
  rw [UInt32.toNat_add, UInt32.toNat_ofNat_of_lt' (by simp only [UInt32.size]; omega), Nat.mod_eq_of_lt h]

theorem exists_offset {start address : UInt32} {length : Nat} (hlow : start.toNat ≤ address.toNat)
    (hhigh : address.toNat < start.toNat + length) : ∃ i < length, start + UInt32.ofNat i = address := by
  have hlt := address.toNat_lt
  refine ⟨address.toNat - start.toNat, by omega, UInt32.toNat_inj.mp ?_⟩
  rw [toNat_add_ofNat (by omega)]
  omega

/-! ## Images -/

namespace MemoryImage

variable {image other : MemoryImage} {address : UInt32} {length : Nat}

def Holds (image : MemoryImage) (address : UInt32) : Prop := image.contains address 1 = true

/-- The byte that an image has for an address. -/
def byteAt? (image : MemoryImage) (address : UInt32) : Option UInt8 :=
  if image.contains address 1 then image.bytes[address.toNat - image.base.toNat]? else none

/-- Whatever the image holds, the other one holds as well. -/
def Within (image other : MemoryImage) : Prop := ∀ address, image.Holds address → other.Holds address

/-- The images share an address, or the second one holds the address behind one of the first one. -/
def Touches (image other : MemoryImage) : Prop :=
  ∃ a b, image.Holds a ∧ other.Holds b ∧ (b.toNat = a.toNat ∨ b.toNat = a.toNat + 1)

theorem contains_iff : image.contains address length = true ↔
    image.base.toNat ≤ address.toNat ∧ address.toNat + length ≤ image.base.toNat + image.length := by
  simp only [contains, Bool.and_eq_true, decide_eq_true_eq, UInt32.le_iff_toNat_le]

theorem holds_iff : image.Holds address ↔
    image.base.toNat ≤ address.toNat ∧ address.toNat < image.base.toNat + image.length := contains_iff

theorem holds_of_byteAt? {byte : UInt8} (h : image.byteAt? address = some byte) : image.Holds address := by
  unfold byteAt? at h
  split at h
  · assumption
  · cases h

theorem byteAt?_of_holds (h : image.Holds address) :
    ∃ byte, image.byteAt? address = some byte ∧ image.bytes[address.toNat - image.base.toNat]? = some byte := by
  have hbounds := holds_iff.mp h
  have hlength : image.length ≤ image.bytes.size := Nat.min_le_left _ _
  have hinside : address.toNat - image.base.toNat < image.bytes.size := by omega
  refine ⟨image.bytes[address.toNat - image.base.toNat], ?_, Array.getElem?_eq_getElem hinside⟩
  exact (if_pos h).trans (Array.getElem?_eq_getElem hinside)

section

variable (hfits : address.toNat + length ≤ 2 ^ 32)
include hfits

theorem holds_of_contains (h : image.contains address length = true) {i : Nat} (hi : i < length) :
    image.Holds (address + UInt32.ofNat i) := by
  rw [contains_iff] at h
  rw [holds_iff, toNat_add_ofNat (by omega)]
  omega

theorem contains_of_holds (hlength : 1 ≤ length) (h : ∀ i < length, image.Holds (address + UInt32.ofNat i)) :
    image.contains address length = true := by
  have hfirst := holds_iff.mp (h 0 hlength)
  have hlast := holds_iff.mp (h (length - 1) (by omega))
  rw [toNat_add_ofNat (by omega)] at hfirst hlast
  rw [contains_iff]
  omega

theorem extract_eq (h : image.contains address length = true) :
    ((image.bytes.extract (address.toNat - image.base.toNat)
      (address.toNat - image.base.toNat + length)).toList).map some =
      (List.range length).map fun i => image.byteAt? (address + UInt32.ofNat i) := by
  have hbounds := contains_iff.mp h
  have hlength : image.length ≤ image.bytes.size := Nat.min_le_left _ _
  refine List.ext_getElem ?_ fun i hi _ => ?_
  · simp only [List.length_map, Array.length_toList, Array.size_extract, List.length_range]
    omega
  · simp only [List.length_map, Array.length_toList, Array.size_extract] at hi
    have hi' : i < length := by omega
    obtain ⟨byte, hbyte, hplace⟩ := byteAt?_of_holds (holds_of_contains hfits h hi')
    rw [toNat_add_ofNat (by omega)] at hplace
    simp only [List.getElem_map, List.getElem_range, Array.getElem_toList, Array.getElem_extract]
    rw [hbyte, ← hplace, Array.getElem?_eq_getElem (by omega)]
    congr 2
    omega

end

theorem touches_self (h : image.Holds address) : image.Touches image := ⟨address, address, h, h, .inl rfl⟩

theorem Touches.exists_range (h : image.Touches other) : ∃ (start : UInt32) (length : Nat), 1 ≤ length ∧
    start.toNat + length ≤ 2 ^ 32 ∧
    (∀ i < length, image.Holds (start + UInt32.ofNat i) ∨ other.Holds (start + UInt32.ofNat i)) ∧
    ∀ address, image.Holds address ∨ other.Holds address → ∃ i < length, start + UInt32.ofNat i = address := by
  obtain ⟨a, b, ha, hb, hclose⟩ := h
  rw [holds_iff] at ha hb
  have halt := a.toNat_lt
  have hblt := b.toNat_lt
  let start := min image.base.toNat other.base.toNat
  let stop := min (max (image.base.toNat + image.length) (other.base.toNat + other.length)) (2 ^ 32)
  have hstart : (UInt32.ofNat start).toNat = start :=
    UInt32.toNat_ofNat_of_lt' (by simp only [UInt32.size, start]; omega)
  refine ⟨UInt32.ofNat start, stop - start, by omega, by omega, fun i hi => ?_, fun address haddress => ?_⟩
  · rw [holds_iff, holds_iff, toNat_add_ofNat (by omega), hstart]
    omega
  · have hlt := address.toNat_lt
    rw [holds_iff, holds_iff] at haddress
    exact exists_offset (by omega) (by omega)

end MemoryImage

/-! ## Reads -/

namespace Snapshot

open MemoryImage

variable {snapshot : Snapshot} {image : MemoryImage} {address : UInt32} {length : Nat} {bytes : List UInt8}

/-- The image that a read is served out of. -/
def imageFor? (snapshot : Snapshot) (address : UInt32) (length : Nat) : Option MemoryImage :=
  snapshot.images.find? fun image => image.contains address length

/-- The byte that a snapshot has for an address. -/
def byteAt? (snapshot : Snapshot) (address : UInt32) : Option UInt8 :=
  (snapshot.imageFor? address 1).bind (·.byteAt? address)

/-- The bytes of a range, read one by one. -/
def readSingly (snapshot : Snapshot) (address : UInt32) (length : Nat) : Except Fault (List UInt8) :=
  match (List.range length).mapM fun i => snapshot.readBytes (address + UInt32.ofNat i) 1 with
  | .ok singles => .ok singles.flatten
  | .error _ => .error (.memoryUnavailable address length)

theorem mem_of_imageFor? (h : snapshot.imageFor? address length = some image) :
    image ∈ snapshot.images ∧ image.contains address length = true := by
  unfold imageFor? at h
  exact ⟨List.mem_of_find?_eq_some h, by simpa using List.find?_some h⟩

theorem imageFor?_eq_none_iff : snapshot.imageFor? address length = none ↔
    ∀ image ∈ snapshot.images, ¬ image.contains address length = true := List.find?_eq_none

theorem imageFor?_eq_some_iff : snapshot.imageFor? address length = some image ↔
    image.contains address length = true ∧ ∃ front back, snapshot.images = front ++ image :: back ∧
      ∀ earlier ∈ front, ¬ earlier.contains address length = true := by
  simp only [imageFor?, List.find?_eq_some_iff_append, Bool.not_eq_true']
  simp only [Bool.not_eq_true]

theorem readBytes_eq (snapshot : Snapshot) (address : UInt32) (length : Nat) : snapshot.readBytes address length =
    match snapshot.imageFor? address length with
    | some image => .ok (image.bytes.extract (address.toNat - image.base.toNat)
        (address.toNat - image.base.toNat + length)).toList
    | none => .error (.memoryUnavailable address length) := rfl

theorem readBytes_eq_ok_iff (hfits : address.toNat + length ≤ 2 ^ 32) :
    snapshot.readBytes address length = .ok bytes ↔ ∃ image, snapshot.imageFor? address length = some image ∧
      bytes.map some = (List.range length).map fun i => image.byteAt? (address + UInt32.ofNat i) := by
  rw [readBytes_eq]
  cases hserved : snapshot.imageFor? address length with
  | none => simp
  | some image =>
    have hbytes := extract_eq hfits (mem_of_imageFor? hserved).2
    simp only [Except.ok.injEq, Option.some.injEq, exists_eq_left', ← hbytes]
    rw [List.map_inj_right fun _ _ => Option.some.inj, eq_comm]

theorem readBytes_one_iff :
    snapshot.readBytes address 1 = .ok bytes ↔ ∃ byte, bytes = [byte] ∧ snapshot.byteAt? address = some byte := by
  have hfits : address.toNat + 1 ≤ 2 ^ 32 := address.toNat_lt
  rw [readBytes_eq_ok_iff hfits, byteAt?]
  cases snapshot.imageFor? address 1 with
  | none => simp
  | some image => simp [List.map_eq_singleton_iff, eq_comm]

theorem flatten_singles {indices : List Nat} {singles : List (List UInt8)}
    (h : List.Forall₂ (fun i bytes => snapshot.readBytes (address + UInt32.ofNat i) 1 = .ok bytes) indices singles) :
    singles.flatten.map some = indices.map fun i => snapshot.byteAt? (address + UInt32.ofNat i) := by
  induction h with
  | nil => rfl
  | cons hread _ ih =>
    obtain ⟨byte, rfl, hbyte⟩ := readBytes_one_iff.mp hread
    rw [List.flatten_cons, List.map_append, List.map_cons, ih, List.map_cons, hbyte]
    rfl

theorem readSingly_cases (snapshot : Snapshot) (address : UInt32) (length : Nat) :
    (∃ bytes, snapshot.readSingly address length = .ok bytes ∧
      bytes.map some = (List.range length).map fun i => snapshot.byteAt? (address + UInt32.ofNat i)) ∨
    (snapshot.readSingly address length = .error (.memoryUnavailable address length) ∧
      ∃ i < length, snapshot.byteAt? (address + UInt32.ofNat i) = none) := by
  unfold readSingly
  rcases mapM_cases (fun i => snapshot.readBytes (address + UInt32.ofNat i) 1) (List.range length) with
    ⟨singles, hsingles, hall⟩ | ⟨front, i, back, e, hrange, -, hfail, hmap⟩
  · exact .inl ⟨singles.flatten, by rw [hsingles], flatten_singles hall⟩
  · refine .inr ⟨by rw [hmap], i, List.mem_range.mp (hrange ▸ by simp), ?_⟩
    rw [Option.eq_none_iff_forall_ne_some]
    intro byte hbyte
    exact nomatch hfail.symm.trans (readBytes_one_iff.mpr ⟨byte, rfl, hbyte⟩)

/-! ## Images that are used -/

/-- Images that touch are parts of one image. -/
def Joined (snapshot : Snapshot) : Prop :=
  ∀ image ∈ snapshot.images, ∀ other ∈ snapshot.images, image.Touches other →
    ∃ whole ∈ snapshot.images, image.Within whole ∧ other.Within whole

/-- No image in front of this one holds all that it holds, so that some reads are served out of it. -/
def Exposed (snapshot : Snapshot) (image : MemoryImage) : Prop :=
  ∃ front back, snapshot.images = front ++ image :: back ∧ ∀ earlier ∈ front, ¬ image.Within earlier

/-- Images that are used show the same bytes where they overlap. -/
def Agreeing (snapshot : Snapshot) : Prop :=
  ∀ image other, snapshot.Exposed image → snapshot.Exposed other → ∀ address b c,
    image.byteAt? address = some b → other.byteAt? address = some c → b = c

theorem Exposed.mem (h : snapshot.Exposed image) : image ∈ snapshot.images := by
  obtain ⟨front, back, himages, -⟩ := h
  rw [himages]
  exact List.mem_append_right front List.mem_cons_self

theorem exposed_of_imageFor? (hfits : address.toNat + length ≤ 2 ^ 32) (hlength : 1 ≤ length)
    (h : snapshot.imageFor? address length = some image) : snapshot.Exposed image := by
  obtain ⟨hcontains, front, back, himages, hfront⟩ := imageFor?_eq_some_iff.mp h
  refine ⟨front, back, himages, fun earlier hearlier hwithin => hfront earlier hearlier ?_⟩
  exact contains_of_holds hfits hlength fun i hi => hwithin _ (holds_of_contains hfits hcontains hi)

theorem exists_first (hmem : image ∈ snapshot.images) (h : image.Holds address) :
    ∃ first byte, snapshot.Exposed first ∧ first.byteAt? address = some byte ∧
      snapshot.byteAt? address = some byte := by
  cases hserved : snapshot.imageFor? address 1 with
  | none => exact absurd h (imageFor?_eq_none_iff.mp hserved image hmem)
  | some first =>
    obtain ⟨byte, hbyte, -⟩ := byteAt?_of_holds (mem_of_imageFor? hserved).2
    refine ⟨first, byte, exposed_of_imageFor? address.toNat_lt (Nat.le_refl 1) hserved, hbyte, ?_⟩
    rw [byteAt?, hserved, Option.bind_some, hbyte]

theorem byteAt?_ne_none (hmem : image ∈ snapshot.images) (h : image.Holds address) :
    snapshot.byteAt? address ≠ none := by
  obtain ⟨-, byte, -, -, hbyte⟩ := exists_first hmem h
  exact Option.ne_none_iff_exists'.mpr ⟨byte, hbyte⟩

theorem exists_holds (h : snapshot.byteAt? address ≠ none) : ∃ image ∈ snapshot.images, image.Holds address := by
  obtain ⟨byte, hbyte⟩ := Option.ne_none_iff_exists'.mp h
  obtain ⟨image, hserved, -⟩ := Option.bind_eq_some_iff.mp hbyte
  exact ⟨image, mem_of_imageFor? hserved⟩

theorem byteAt?_of_agreeing (hagreeing : snapshot.Agreeing) (himage : snapshot.Exposed image)
    (h : image.Holds address) : snapshot.byteAt? address = image.byteAt? address := by
  obtain ⟨first, b, hfirst, hb, hbyte⟩ := exists_first himage.mem h
  obtain ⟨c, hc, -⟩ := byteAt?_of_holds h
  rw [hbyte, hc, hagreeing first image hfirst himage address b c hb hc]

theorem exists_contains (hjoined : snapshot.Joined) (hfits : address.toNat + length ≤ 2 ^ 32) (hlength : 1 ≤ length)
    (h : ∀ i < length, ∃ image ∈ snapshot.images, image.Holds (address + UInt32.ofNat i)) :
    ∃ image ∈ snapshot.images, image.contains address length = true := by
  induction length with
  | zero => cases hlength
  | succ length ih =>
    obtain ⟨next, hnext, hholds⟩ := h length (Nat.lt_succ_self length)
    rcases Nat.eq_zero_or_pos length with rfl | hpositive
    · refine ⟨next, hnext, contains_of_holds hfits hlength fun i hi => ?_⟩
      rwa [Nat.lt_one_iff.mp hi]
    have hfits' : address.toNat + length ≤ 2 ^ 32 := by omega
    obtain ⟨image, hmem, hcontains⟩ := ih hfits' hpositive fun i hi => h i (by omega)
    have htouches : image.Touches next := by
      refine ⟨_, _, holds_of_contains hfits' hcontains (i := length - 1) (by omega), hholds, .inr ?_⟩
      rw [toNat_add_ofNat (by omega), toNat_add_ofNat (by omega)]
      omega
    obtain ⟨whole, hwhole, hleft, hright⟩ := hjoined image hmem next hnext htouches
    refine ⟨whole, hwhole, contains_of_holds hfits hlength fun i hi => ?_⟩
    rcases Nat.lt_succ_iff_lt_or_eq.mp hi with hlt | rfl
    · exact hleft _ (holds_of_contains hfits' hcontains hlt)
    · exact hright _ hholds

/-! ## Reads against their bytes -/

/-- Ranges of addresses are read as their bytes are one by one. -/
def ReadsBytewise (snapshot : Snapshot) : Prop :=
  ∀ (address : UInt32) (length : Nat), 1 ≤ length → address.toNat + length ≤ 2 ^ 32 →
    snapshot.readBytes address length = snapshot.readSingly address length

theorem readBytes_eq_readSingly (hjoined : snapshot.Joined) (hagreeing : snapshot.Agreeing) (hlength : 1 ≤ length)
    (hfits : address.toNat + length ≤ 2 ^ 32) :
    snapshot.readBytes address length = snapshot.readSingly address length := by
  cases hserved : snapshot.imageFor? address length with
  | some image =>
    obtain ⟨hmem, hcontains⟩ := mem_of_imageFor? hserved
    rcases snapshot.readSingly_cases address length with ⟨bytes, hsingly, hbytes⟩ | ⟨-, i, hi, hnone⟩
    · rw [hsingly, readBytes_eq_ok_iff hfits]
      refine ⟨image, hserved, hbytes.trans (List.map_inj_left.mpr fun i hi => ?_)⟩
      exact byteAt?_of_agreeing hagreeing (exposed_of_imageFor? hfits hlength hserved)
        (holds_of_contains hfits hcontains (List.mem_range.mp hi))
    · exact absurd hnone (byteAt?_ne_none hmem (holds_of_contains hfits hcontains hi))
  | none =>
    rcases snapshot.readSingly_cases address length with ⟨bytes, -, hbytes⟩ | ⟨hsingly, -⟩
    · obtain ⟨image, hmem, hcontains⟩ := exists_contains hjoined hfits hlength fun i hi => by
        refine exists_holds fun hnone => ?_
        have hsome : none ∈ bytes.map some := hbytes ▸ List.mem_map.mpr ⟨i, List.mem_range.mpr hi, hnone⟩
        simp at hsome
      exact absurd hcontains (imageFor?_eq_none_iff.mp hserved image hmem)
    · rw [readBytes_eq, hserved, hsingly]

theorem joined_of_readsBytewise (h : snapshot.ReadsBytewise) : snapshot.Joined := by
  intro image hmem other hother htouches
  obtain ⟨start, length, hlength, hfits, hheld, hrange⟩ := htouches.exists_range
  have hread := h start length hlength hfits
  rcases snapshot.readSingly_cases start length with ⟨bytes, hsingly, -⟩ | ⟨-, i, hi, hnone⟩
  · obtain ⟨whole, hserved, -⟩ := (readBytes_eq_ok_iff hfits).mp (hread.trans hsingly)
    obtain ⟨hwhole, hcontains⟩ := mem_of_imageFor? hserved
    have hholds (address : UInt32) (haddress : image.Holds address ∨ other.Holds address) : whole.Holds address := by
      obtain ⟨i, hi, rfl⟩ := hrange address haddress
      exact holds_of_contains hfits hcontains hi
    exact ⟨whole, hwhole, fun address himage => hholds address (.inl himage), fun address hother =>
      hholds address (.inr hother)⟩
  · rcases hheld i hi with hholds | hholds
    · exact absurd hnone (byteAt?_ne_none hmem hholds)
    · exact absurd hnone (byteAt?_ne_none hother hholds)

theorem byteAt?_of_readsBytewise (h : snapshot.ReadsBytewise) (himage : snapshot.Exposed image)
    (hholds : image.Holds address) : snapshot.byteAt? address = image.byteAt? address := by
  obtain ⟨front, back, himages, hfront⟩ := id himage
  obtain ⟨start, length, hlength, hfits, hheld, hrange⟩ := (touches_self hholds).exists_range
  simp only [or_self] at hheld hrange
  have hserved : snapshot.imageFor? start length = some image := by
    refine imageFor?_eq_some_iff.mpr ⟨contains_of_holds hfits hlength hheld, front, back, himages, ?_⟩
    intro earlier hearlier hcontains
    refine hfront earlier hearlier fun x hx => ?_
    obtain ⟨i, hi, rfl⟩ := hrange x hx
    exact holds_of_contains hfits hcontains hi
  -- the read of all that the image holds shows each of its bytes
  have hread := h start length hlength hfits
  obtain ⟨i, hi, rfl⟩ := hrange address hholds
  rcases snapshot.readSingly_cases start length with ⟨bytes, hsingly, hbytes⟩ | ⟨-, j, hj, hnone⟩
  · obtain ⟨same, hsame, hcut⟩ := (readBytes_eq_ok_iff hfits).mp (hread.trans hsingly)
    cases hserved.symm.trans hsame
    exact List.map_inj_left.mp (hbytes.symm.trans hcut) i (List.mem_range.mpr hi)
  · exact absurd hnone (byteAt?_ne_none himage.mem (hheld j hj))

theorem agreeing_of_readsBytewise (h : snapshot.ReadsBytewise) : snapshot.Agreeing := by
  intro image other himage hother address b c hb hc
  have hleft := byteAt?_of_readsBytewise h himage (holds_of_byteAt? hb)
  have hright := byteAt?_of_readsBytewise h hother (holds_of_byteAt? hc)
  rw [hb] at hleft
  rw [hc] at hright
  exact Option.some.inj (hleft.symm.trans hright)

theorem error_of_readBytes {e : Fault} (h : snapshot.readBytes address length = .error e) :
    e = .memoryUnavailable address length := by
  rw [readBytes_eq] at h
  split at h <;> cases h
  rfl

theorem readSingly_of_readBytes (hfits : address.toNat + length ≤ 2 ^ 32)
    (h : snapshot.readBytes address length = .ok bytes) :
    bytes.length = length ∧ ∃ singles, snapshot.readSingly address length = .ok singles := by
  obtain ⟨image, hserved, hbytes⟩ := (readBytes_eq_ok_iff hfits).mp h
  obtain ⟨hmem, hcontains⟩ := mem_of_imageFor? hserved
  refine ⟨by simpa using congrArg List.length hbytes, ?_⟩
  rcases snapshot.readSingly_cases address length with ⟨singles, hsingly, -⟩ | ⟨-, i, hi, hnone⟩
  · exact ⟨singles, hsingly⟩
  · exact absurd hnone (byteAt?_ne_none hmem (holds_of_contains hfits hcontains hi))

/--
What is read in one piece can be read byte by byte, and a read fails only as unavailable memory. The two reads
agree for all ranges exactly if images that touch are parts of one image and those that are used agree.
-/
theorem readsBytewise_iff (snapshot : Snapshot) :
    (∀ address length bytes, address.toNat + length ≤ 2 ^ 32 → snapshot.readBytes address length = .ok bytes →
      bytes.length = length ∧ ∃ singles, snapshot.readSingly address length = .ok singles) ∧
    (∀ address length e, snapshot.readBytes address length = .error e → e = .memoryUnavailable address length) ∧
    (snapshot.ReadsBytewise ↔ snapshot.Joined ∧ snapshot.Agreeing) := by
  refine ⟨fun _ _ _ => readSingly_of_readBytes, fun _ _ _ => error_of_readBytes, fun h => ?_, fun h => ?_⟩
  · exact ⟨joined_of_readsBytewise h, agreeing_of_readsBytewise h⟩
  · exact fun _ _ => readBytes_eq_readSingly h.1 h.2

/-- Two parts of a memory that overlap, and all of it behind them. -/
def capturedTwice : Snapshot where
  registers := .replicate 16 0
  images := [⟨.ram, 0x20000000, #[1, 2]⟩, ⟨.ram, 0x20000001, #[2, 3]⟩, ⟨.ram, 0x20000000, #[1, 2, 3]⟩]

theorem range_capturedTwice (hmem : image ∈ capturedTwice.images) (h : image.Holds address) :
    ∃ i < 3, 0x20000000 + UInt32.ofNat i = address := by
  have hrange : ∀ image ∈ capturedTwice.images,
      0x20000000 ≤ image.base.toNat ∧ image.base.toNat + image.length ≤ 0x20000003 := by decide
  have himage := hrange image hmem
  rw [holds_iff] at h
  exact exists_offset (by simp only [UInt32.reduceToNat]; omega) (by simp only [UInt32.reduceToNat]; omega)

theorem readsBytewise_capturedTwice : capturedTwice.Joined ∧ capturedTwice.Agreeing ∧ capturedTwice.ReadsBytewise ∧
    capturedTwice.readBytes 0x20000000 3 = .ok [1, 2, 3] ∧
    ∃ singles, capturedTwice.readSingly 0x20000000 3 = .ok singles := by
  have hwithin (image : MemoryImage) (hmem : image ∈ capturedTwice.images) :
      image.Within ⟨.ram, 0x20000000, #[1, 2, 3]⟩ := fun address h => by
    obtain ⟨i, hi, rfl⟩ := range_capturedTwice hmem h
    exact (by decide : ∀ i < 3, MemoryImage.contains ⟨.ram, 0x20000000, #[1, 2, 3]⟩ (0x20000000 + .ofNat i) 1) i hi
  have hsame : ∀ i < 3, ∀ image ∈ capturedTwice.images, ∀ other ∈ capturedTwice.images,
      image.contains (0x20000000 + .ofNat i) 1 → other.contains (0x20000000 + .ofNat i) 1 →
        image.byteAt? (0x20000000 + .ofNat i) = other.byteAt? (0x20000000 + .ofNat i) := by decide
  have hjoined : capturedTwice.Joined := fun image hmem other hother _ =>
    ⟨_, by simp [capturedTwice], hwithin image hmem, hwithin other hother⟩
  have hagreeing : capturedTwice.Agreeing := by
    intro image other himage hother address b c hb hc
    obtain ⟨i, hi, rfl⟩ := range_capturedTwice himage.mem (holds_of_byteAt? hb)
    have heq := hsame i hi image himage.mem other hother.mem (holds_of_byteAt? hb) (holds_of_byteAt? hc)
    exact Option.some.inj (hb.symm.trans (heq.trans hc))
  obtain ⟨hread, -, hbytewise⟩ := readsBytewise_iff capturedTwice
  exact ⟨hjoined, hagreeing, hbytewise.mpr ⟨hjoined, hagreeing⟩, rfl, (hread 0x20000000 3 _ (by decide) rfl).2⟩

/-- A flash memory in two images, one behind the other. -/
def splitFlash : Snapshot where
  registers := .replicate 16 0
  images := [⟨.flash, 0x08000000, #[1, 2]⟩, ⟨.flash, 0x08000002, #[3, 4]⟩]

/-- A byte of memory that has changed when it was captured again. -/
def changedRam : Snapshot where
  registers := .replicate 16 0
  images := [⟨.ram, 0x20000000, #[1]⟩, ⟨.ram, 0x20000000, #[8, 9]⟩]

theorem not_readsBytewise_splitFlash : ¬ splitFlash.ReadsBytewise ∧ ¬ changedRam.ReadsBytewise := by
  refine ⟨fun h => ?_, fun h => ?_⟩
  · have hsingly : splitFlash.readSingly 0x08000000 4 = .ok [1, 2, 3, 4] := rfl
    have hread : splitFlash.readBytes 0x08000000 4 = .error (.memoryUnavailable 0x08000000 4) := rfl
    rw [h 0x08000000 4 (by decide) (by decide), hsingly] at hread
    cases hread
  · have hsingly : changedRam.readSingly 0x20000000 2 = .ok [1, 9] := rfl
    have hread : changedRam.readBytes 0x20000000 2 = .ok [8, 9] := rfl
    rw [h 0x20000000 2 (by decide) (by decide), hsingly] at hread
    cases hread

end Snapshot

end FirmwareDebug
