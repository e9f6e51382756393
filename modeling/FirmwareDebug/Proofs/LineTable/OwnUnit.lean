import FirmwareDebug.LineTable.Lookup
import FirmwareDebug.Proofs.LittleEndian
import FirmwareDebug.Proofs.Local
import FirmwareDebug.Proofs.Read

/-!
# A line table and the bytes around its unit

A unit of a line table can stand anywhere among others. Its header is read inside of it, and so is its program
if the program starts there. A header whose length leads behind the unit has an empty program, but only where
the section goes on up to that place.
-/

namespace FirmwareDebug.LineTable

open Read

-- The instance for a read repeats what follows each of its conditionals.
set_option synthInstance.maxSize 20000

/-! ## What is read inside a unit -/

instance : Local readColumn := by
  unfold readColumn
  infer_instance

instance : Local readColumns := by
  unfold readColumns
  infer_instance

instance (texts : TextSections) (form : UInt16) (value : AttributeValue) : Local (pathText texts form value) := by
  unfold pathText
  split <;> infer_instance

instance (encoding : Encoding) (texts : TextSections) (entry : FileEntry) (columns : List Column) :
    Local (readEntry encoding texts entry columns) := by
  induction columns generalizing entry with
  | nil =>
    unfold readEntry
    infer_instance
  | cons column columns ih =>
    unfold readEntry
    refine .andThen fun value => ?_
    dsimp only
    split <;> infer_instance

instance (encoding : Encoding) (texts : TextSections) : Local (readTable encoding texts) := by
  unfold readTable
  infer_instance

instance : Local readName := by
  unfold readName
  infer_instance

instance : Local readFile := by
  unfold readFile
  refine .andThen fun name => ?_
  split <;> infer_instance

instance (encoding : Encoding) (texts : TextSections) : Local (readTables encoding texts) := by
  unfold readTables
  infer_instance

instance (texts : TextSections) (offset : UInt32) (stop : Nat) : Local (readFields texts offset stop) := by
  unfold readFields
  infer_instance

namespace Instruction

instance (length : Nat) : Local (readExtendedBody length) := by
  unfold readExtendedBody
  refine .andThen fun opcode => ?_
  split <;> infer_instance

instance : Local readExtended := by
  unfold readExtended
  refine .andThen fun length => ?_
  split
  · infer_instance
  refine .position_bind fun low place hplace => ?_
  have hnext : low ≤ place + length.toNat := Nat.le_add_right_of_le hplace
  have hbody : ∀ length, Alike (Cursor.Agrees low) (fun _ => True) (readExtendedBody length) (readExtendedBody length) :=
    fun length => Local.alike low
  dsimp only
  split
  · have hfault : Local (malformed .extendedLength : Read PUnit) := inferInstance
    exact (hfault.alike low).bind fun _ => (hbody _).bind fun _ => (alike_seek hnext).bind fun _ => .pure _
  · exact (hbody _).bind fun _ => (alike_seek hnext).bind fun _ => .pure _

instance (header : Header) (opcode : UInt8) : Local (readStandard header opcode) := by
  unfold readStandard
  split <;> infer_instance

instance (header : Header) : Local (Instruction.read header) := by
  unfold Instruction.read
  infer_instance

end Instruction

/-! ## The unit -/

/-- At the offset both sections have a unit with so many bytes behind its length, and the bytes are the same. -/
structure SameUnit (a b : Bytes) (offset : UInt32) (length : Nat) : Prop where
  here : offset.toNat + 4 + length ≤ a.size
  there : offset.toNat + 4 + length ≤ b.size
  told : littleEndian (a.extract offset.toNat (offset.toNat + 4)).toList = length
  same : a.extract offset.toNat (offset.toNat + 4 + length) = b.extract offset.toNat (offset.toNat + 4 + length)

variable {a b : Bytes} {offset : UInt32} {length : Nat} {texts : TextSections} {header : Header}

theorem getElem?_eq_of_extract {i start stop : Nat} (ha : stop ≤ a.size) (hb : stop ≤ b.size)
    (h : a.extract start stop = b.extract start stop) (hlow : start ≤ i) (hlt : i < stop) : a[i]? = b[i]? := by
  have hi : (a.extract start stop)[i - start]? = (b.extract start stop)[i - start]? := by rw [h]
  rw [Array.getElem?_extract, Array.getElem?_extract, Nat.min_eq_left ha, Nat.min_eq_left hb,
    if_pos (by omega), if_pos (by omega), Nat.add_sub_cancel' hlow] at hi
  exact hi

namespace SameUnit

theorem getElem?_eq (h : SameUnit a b offset length) {i : Nat} (hlow : offset.toNat ≤ i)
    (hlt : i < offset.toNat + 4 + length) : a[i]? = b[i]? :=
  getElem?_eq_of_extract h.here h.there h.same hlow hlt

theorem symm (h : SameUnit a b offset length) : SameUnit b a offset length where
  here := h.there
  there := h.here
  told := by
    have hhere := h.here
    have hthere := h.there
    rw [← h.told]
    refine congrArg (fun bytes : Bytes => littleEndian bytes.toList) ?_
    exact extract_congr (by omega) (by omega) fun i hlow hlt => (h.getElem?_eq hlow (by omega)).symm
  same := h.same.symm

end SameUnit

theorem word_place (h : offset.toNat + 4 + length ≤ a.size)
    (htold : littleEndian (a.extract offset.toNat (offset.toNat + 4)).toList = length) :
    word (.place region a offset.toNat) = .ok (UInt32.ofNat length) ((Cursor.place region a offset.toNat).advance 4) := by
  have hwindow : (Cursor.place region a offset.toNat).window 4 = a.extract offset.toNat (offset.toNat + 4) := by
    show a.extract offset.toNat (min a.size (offset.toNat + 4)) = _
    rw [Nat.min_eq_right (by omega)]
  have hbytes : Read.bytes 4 (.place region a offset.toNat) =
      .ok (a.extract offset.toNat (offset.toNat + 4)).toList ((Cursor.place region a offset.toNat).advance 4) := by
    rw [Read.bytes, hwindow]
    exact if_pos (Nat.le_trans (Nat.le_add_right _ _) h)
  simp only [word, number, run_bind, hbytes, ← htold]
  rfl

/-- The cursor that reads the header of a unit and may read all of the unit. -/
def unitCursor (section' : Bytes) (offset : UInt32) (length : Nat)
    (h : offset.toNat + 4 + length ≤ section'.size) : Cursor :=
  ⟨region, section', offset.toNat + 4 + length, offset.toNat + 4, h⟩

theorem read_eq (h : offset.toNat + 4 + length ≤ a.size)
    (htold : littleEndian (a.extract offset.toNat (offset.toNat + 4)).toList = length) :
    Header.read a texts offset =
      if UInt32.ofNat length = 0xffffffff then .error (.wideFormat offset.toNat)
      else (readFields texts offset (offset.toNat + 4 + length)).eval (unitCursor a offset length h) := by
  have hlength : length < 2 ^ 32 := by
    rw [← htold]
    refine Nat.lt_of_lt_of_le (littleEndian_lt _) (Nat.pow_le_pow_right (by omega) ?_ : 256 ^ _ ≤ 256 ^ 4)
    simp only [Array.length_toList, Array.size_extract]
    omega
  have hvalue : (UInt32.ofNat length).toNat = length := UInt32.toNat_ofNat_of_lt' hlength
  have hword := word_place h htold
  have hwithin : within length ((Cursor.place region a offset.toNat).advance 4) =
      .ok (unitCursor a offset length h) ((Cursor.place region a offset.toNat).advance 4) := by
    have hfits : ((Cursor.place region a offset.toNat).advance 4).position + length ≤
        ((Cursor.place region a offset.toNat).advance 4).limit := h
    rw [within, Cursor.truncated?, dif_pos hfits]
    rfl
  have hunit : (readUnit offset).eval (.place region a offset.toNat) =
      if UInt32.ofNat length = 0xffffffff then .error (.wideFormat offset.toNat)
      else .ok (unitCursor a offset length h, offset.toNat + 4 + length) := by
    unfold readUnit eval
    rw [run_bind_of_ok hword]
    have hposition : ∀ c, position c = .ok c.position c := fun _ => rfl
    by_cases hwide : UInt32.ofNat length = 0xffffffff
    · simp only [if_pos hwide]
      rfl
    · simp only [if_neg hwide, run_bind, hposition, hvalue, hwithin]
      rfl
  rw [Header.read, hunit]
  split <;> rfl

theorem SameUnit.agrees (h : SameUnit a b offset length) {low : Nat} (hlow : offset.toNat ≤ low)
    {place : Nat} (hplace : low ≤ place) (limit : Nat) (hlimit : limit ≤ offset.toNat + 4 + length)
    (ha : limit ≤ a.size) (hb : limit ≤ b.size) :
    Cursor.Agrees low ⟨region, a, limit, place, ha⟩ ⟨region, b, limit, place, hb⟩ where
  region := rfl
  position := rfl
  limit := rfl
  reached := hplace
  bytes := fun _ hi hlt => h.getElem?_eq (Nat.le_trans hlow hi) (Nat.lt_of_lt_of_le hlt hlimit)

theorem SameUnit.read_congr (h : SameUnit a b offset length) : Header.read a texts offset = Header.read b texts offset := by
  rw [read_eq h.here h.told, read_eq h.there h.symm.told]
  split
  · rfl
  · exact Local.eval_eq (h.agrees (Nat.le_add_right _ _) (Nat.le_refl (offset.toNat + 4)) _ (Nat.le_refl _) h.here h.there)

/-! ## Where a program starts -/

/-- Every value that the read gives on a cursor that is not before a place. -/
def Returns {α : Type} (low : Nat) (read : Read α) (Q : α → Prop) : Prop :=
  ∀ c a next, low ≤ c.position → read c = .ok a next → Q a

namespace Returns

variable {α β : Type} {low : Nat} {read : Read α} {f : α → Read β} {P : α → Prop} {Q : β → Prop}

theorem pure {a : β} (h : Q a) : Returns low (pure a) Q := by
  rintro c _ next - ⟨⟩
  exact h

theorem bind (h : Gives read P) (hf : ∀ a, P a → Returns low (f a) Q) : Returns low (read >>= f) Q := by
  intro c b last hc hread
  obtain ⟨a, next, hfirst, hrest⟩ := ran_of_bind hread
  obtain ⟨hahead, ha⟩ := h _ _ _ hfirst
  exact hf a ha next b last (Nat.le_trans hc hahead.position_le) hrest

theorem throw_bind {e : Fault} : Returns low (throw e >>= f) Q := by
  rintro c _ next - ⟨⟩

theorem andThen (hf : ∀ a, Returns 0 (f a) Q) : Returns low (read >>= f) Q := by
  intro c b last _ hread
  obtain ⟨a, next, -, hrest⟩ := ran_of_bind hread
  exact hf a next b last (Nat.zero_le _) hrest

theorem position_bind {f : Nat → Read β} (hf : ∀ place, low ≤ place → Returns low (f place) Q) :
    Returns low (position >>= f) Q := fun c b last hc hread => hf c.position hc c b last hc hread

end Returns

theorem returns_readFields (texts : TextSections) (offset : UInt32) (low stop : Nat) :
    Returns low (readFields texts offset stop) fun header => low ≤ header.start ∧ header.stop = stop := by
  unfold readFields
  refine .bind gives_half fun version _ => ?_
  dsimp only
  split
  · exact .throw_bind
  -- The size of addresses is read or known, and both ways go on alike.
  split
  case' isTrue =>
    refine .bind gives_byte fun size _ => .bind (gives_discard gives_byte) fun _ _ =>
      .bind (.pure trivial) fun addressSize (_ : True) => ?_
  case' isFalse => refine .bind (.pure trivial) fun addressSize (_ : True) => ?_
  all_goals
    refine .bind gives_word fun headerLength _ => .position_bind fun place hplace => .andThen fun _ => ?_
    have hstart : low ≤ place + headerLength.toNat := Nat.le_add_right_of_le hplace
    split <;> refine .andThen fun _ => .andThen fun _ => .andThen fun _ => .andThen fun _ => ?_
    all_goals
      split
      · exact .andThen fun _ => .andThen fun _ => .andThen fun _ => .andThen fun _ => .pure ⟨hstart, rfl⟩
      · exact .andThen fun _ => .andThen fun _ => .andThen fun _ => .pure ⟨hstart, rfl⟩

theorem start_of_read (h : offset.toNat + 4 + length ≤ a.size)
    (htold : littleEndian (a.extract offset.toNat (offset.toNat + 4)).toList = length)
    (hread : Header.read a texts offset = .ok header) :
    offset.toNat + 4 ≤ header.start ∧ header.stop = offset.toNat + 4 + length := by
  rw [read_eq h htold] at hread
  split at hread
  · cases hread
  · obtain ⟨next, hfields⟩ := eval_eq_ok_iff.mp hread
    exact returns_readFields texts offset _ _ _ _ _ (Nat.le_refl _) hfields

/-! ## The program -/

theorem instructions_of_le (hle : header.start ≤ header.stop) (h : header.stop ≤ a.size) :
    header.instructions a =
      .ok (.ofCursor (Instruction.read header) ⟨region, a, header.stop, header.start, h⟩) := by
  have hfits : (Cursor.place region a header.start).position + (header.stop - header.start) ≤
      (Cursor.place region a header.start).limit := by
    show header.start + (header.stop - header.start) ≤ a.size
    omega
  have hstop : header.start + (header.stop - header.start) = header.stop := Nat.add_sub_cancel' hle
  unfold Header.instructions eval within Cursor.truncated?
  simp only [dif_pos hfits]
  simp only [Cursor.place, hstop]
  rfl

theorem instructions_of_lt (hlt : header.stop < header.start) :
    header.instructions a =
      if header.start ≤ a.size then .ok ⟨[], none⟩ else .error (.endOfSection region header.start) := by
  have hempty : header.stop - header.start = 0 := Nat.sub_eq_zero_of_le hlt.le
  unfold Header.instructions eval within Cursor.truncated?
  simp only [hempty, Nat.add_zero]
  by_cases hreach : header.start ≤ a.size
  · have hfits : (Cursor.place region a header.start).position ≤ (Cursor.place region a header.start).limit := hreach
    have hleft : Cursor.left ⟨region, a, header.start, header.start, hreach⟩ = 0 := Nat.sub_self _
    simp only [dif_pos hfits, if_pos hreach]
    show Except.ok (Decoded.collect _ (Cursor.left ⟨region, a, header.start, header.start, hreach⟩) _) = _
    rw [hleft]
    rfl
  · have hfits : ¬ (Cursor.place region a header.start).position ≤ (Cursor.place region a header.start).limit := hreach
    simp only [dif_neg hfits, if_neg hreach]
    rfl

/-! ## The answers -/

/-- The tables give the same rows and answers, or fail with the same faults. -/
structure AnswersAlike (table other : LineTable) : Prop where
  rows : table.rows = other.rows
  lineOfAddress : ∀ address, table.lineOfAddress address = other.lineOfAddress address
  addressesOfLine : ∀ name line, table.addressesOfLine name line = other.addressesOfLine name line

theorem answersAlike_of_instructions (h : header.instructions a = header.instructions b) (directory : Option String) :
    AnswersAlike ⟨header, a, directory⟩ ⟨header, b, directory⟩ := by
  have hrows : decodedRows ⟨header, a, directory⟩ = decodedRows ⟨header, b, directory⟩ := by
    rw [decodedRows, decodedRows, h]
  have hpairs : decodedPairs ⟨header, a, directory⟩ = decodedPairs ⟨header, b, directory⟩ := by
    rw [decodedPairs, decodedPairs, hrows]
  have hfiles : ∀ name, matchingFiles ⟨header, a, directory⟩ name = matchingFiles ⟨header, b, directory⟩ name :=
    fun _ => rfl
  constructor
  · rw [LineTable.rows, LineTable.rows, hrows]
  · intro address
    rw [LineTable.lineOfAddress, LineTable.lineOfAddress, hpairs]
  · intro name line
    rw [LineTable.addressesOfLine, LineTable.addressesOfLine, hpairs, hfiles]

theorem rows_of_lt (hlt : header.stop < header.start) (directory : Option String) :
    rows ⟨header, a, directory⟩ =
      if header.start ≤ a.size then .ok [] else .error (.endOfSection region header.start) := by
  rw [LineTable.rows, decodedRows, instructions_of_lt hlt]
  split <;> rfl

theorem SameUnit.instructions_congr (h : SameUnit a b offset length) (hread : Header.read a texts offset = .ok header)
    (hle : header.start ≤ header.stop) : header.instructions a = header.instructions b := by
  obtain ⟨hstart, hstop⟩ := start_of_read h.here h.told hread
  have ha : header.stop ≤ a.size := hstop ▸ h.here
  have hb : header.stop ≤ b.size := hstop ▸ h.there
  have hagrees := h.agrees (Nat.le_add_right _ 4) hstart header.stop hstop.le ha hb
  rw [instructions_of_le hle ha, instructions_of_le hle hb, ofCursor_congr hagrees]

/-- All that is asked of the unit at an offset has the same answers in both sections. -/
def AnsweredByUnit (a b : Bytes) (texts : TextSections) (offset : UInt32) : Prop :=
  Header.read a texts offset = Header.read b texts offset ∧
    ∀ header, Header.read a texts offset = .ok header → ∀ directory,
      AnswersAlike ⟨header, a, directory⟩ ⟨header, b, directory⟩

/--
Two sections with the same unit give the same header. Their rows and answers are the same just if the program
starts inside the unit, or else if both sections or none reach up to where it would start.
-/
theorem answersAlike_iff (texts : TextSections) (h : SameUnit a b offset length) :
    Header.read a texts offset = Header.read b texts offset ∧
      ∀ header, Header.read a texts offset = .ok header → ∀ directory,
        (AnswersAlike ⟨header, a, directory⟩ ⟨header, b, directory⟩ ↔
          header.start ≤ header.stop ∨ (header.start ≤ a.size ↔ header.start ≤ b.size)) := by
  refine ⟨h.read_congr, fun header hread directory => ?_⟩
  by_cases hle : header.start ≤ header.stop
  · have halike := answersAlike_of_instructions (h.instructions_congr hread hle) directory
    exact iff_of_true halike (.inl hle)
  have hlt : header.stop < header.start := Nat.lt_of_not_le hle
  constructor
  · intro halike
    have hrows := halike.rows
    rw [rows_of_lt hlt, rows_of_lt hlt] at hrows
    refine .inr ?_
    split at hrows <;> split at hrows
    · exact iff_of_true ‹_› ‹_›
    · cases hrows
    · cases hrows
    · exact iff_of_false ‹_› ‹_›
  · rintro (hinside | hreach)
    · exact absurd hinside hle
    · refine answersAlike_of_instructions ?_ directory
      rw [instructions_of_lt hlt, instructions_of_lt hlt]
      simp only [hreach]

/-- The header of a unit with one file and as many bytes as they are written in, up to its program. -/
def sampleHeader (offset : UInt32) (start stop : Nat) : Header where
  offset
  version := 2
  addressSize := 4
  minimumInstructionLength := 1
  maximumOperations := 1
  defaultIsStatement := true
  lineBase := -5
  lineRange := 14
  opcodeBase := 1
  operandCounts := []
  directories := []
  files := [⟨"a.c", 0⟩]
  start
  stop

/-- A unit whose program is one instruction, with another byte in front of it. -/
def insideUnit (front : UInt8) : Bytes :=
  #[front, 0x15, 0, 0, 0, 2, 0, 0x0e, 0, 0, 0, 1, 1, 0xfb, 0x0e, 1, 0, 0x61, 0x2e, 0x63, 0, 0, 0, 0, 0, 0x20]

theorem answersAlike_inside : SameUnit (insideUnit 0) (insideUnit 7 ++ #[1, 2]) 1 21 ∧
    Header.read (insideUnit 0) ⟨#[], #[]⟩ 1 = .ok (sampleHeader 1 25 26) ∧
      AnswersAlike ⟨sampleHeader 1 25 26, insideUnit 0, none⟩
        ⟨sampleHeader 1 25 26, insideUnit 7 ++ #[1, 2], none⟩ := by
  have hsame : SameUnit (insideUnit 0) (insideUnit 7 ++ #[1, 2]) 1 21 := by
    constructor <;> decide +kernel
  have hread : Header.read (insideUnit 0) ⟨#[], #[]⟩ 1 = .ok (sampleHeader 1 25 26) :=
    ok_of_toOption (by decide +kernel)
  exact ⟨hsame, hread, ((answersAlike_iff ⟨#[], #[]⟩ hsame).2 _ hread none).mpr (.inl (by decide))⟩

/-- A unit that is the whole section. Its program would start one byte behind it. -/
def behindUnit : Bytes :=
  #[0x14, 0, 0, 0, 2, 0, 0x0f, 0, 0, 0, 1, 1, 0xfb, 0x0e, 1, 0, 0x61, 0x2e, 0x63, 0, 0, 0, 0, 0]

theorem not_answeredByUnit_behind : SameUnit behindUnit (behindUnit.push 0) 0 20 ∧
    ¬ AnsweredByUnit behindUnit (behindUnit.push 0) ⟨#[], #[]⟩ 0 := by
  refine ⟨by constructor <;> decide +kernel, ?_⟩
  rintro ⟨-, hanswers⟩
  have hread : Header.read behindUnit ⟨#[], #[]⟩ 0 = .ok (sampleHeader 0 25 24) := ok_of_toOption (by decide +kernel)
  have hlt : (sampleHeader 0 25 24).stop < (sampleHeader 0 25 24).start := by decide
  have hrows := (hanswers _ hread none).rows
  rw [rows_of_lt hlt, rows_of_lt hlt, if_neg (by decide), if_pos (by decide)] at hrows
  cases hrows

end FirmwareDebug.LineTable
