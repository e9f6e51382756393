import FirmwareDebug.Proofs.Index.Entries

/-!
# Values are read where they are passed over

To pass over a value is to read it and forget it, with the same faults. Only references whose offset
does not fit in a word are passed over although they cannot be read, and only values without bytes are read
behind the end, where nothing is passed over.
-/

namespace FirmwareDebug

open Read

namespace Read

variable {α β : Type}

theorem run_discard (read : Read α) (c : Cursor) : discard read c = match read c with
    | .ok _ next => .ok ⟨⟩ next
    | .error e next => .error e next := by
  rw [discard_eq, run_bind]
  cases read c <;> rfl

theorem discard_bind (read : Read α) (f : α → Read β) :
    discard (read >>= f) = read >>= fun a => discard (f a) := by
  simp only [discard_eq, bind_assoc]

theorem discard_map (read : Read α) (f : α → β) : discard (do return f (← read)) = discard read := by
  rw [discard_bind, discard_eq read]
  rfl

@[simp]
theorem discard_bytes (length : Nat) : discard (bytes length) = skip length := by
  funext c
  rw [run_discard]
  unfold bytes skip
  by_cases h : c.position + length ≤ c.limit
  · simp only [if_pos h]
  · simp only [if_neg h]

@[simp]
theorem discard_number (size : Nat) : discard (number size) = skip size :=
  (discard_map _ _).trans (discard_bytes size)

@[simp]
theorem discard_constant (size : Nat) : discard (constant size) = skip size :=
  (discard_map _ _).trans (discard_number size)

@[simp]
theorem discard_byte : discard byte = skip 1 := by
  funext c
  rw [run_discard]
  unfold byte skip
  by_cases h : c.position < c.limit
  · simp only [dif_pos h, if_pos (Nat.succ_le_of_lt h)]
  · simp only [dif_neg h, if_neg (mt Nat.lt_of_succ_le h)]

@[simp]
theorem discard_half : discard half = skip 2 := (discard_map _ _).trans (discard_number 2)

@[simp]
theorem discard_word : discard word = skip 4 := (discard_map _ _).trans (discard_number 4)

@[simp]
theorem discard_long : discard long = skip 8 := (discard_map _ _).trans (discard_number 8)

theorem discard_block (length : Read α) (size : α → Nat) (f : List UInt8 → β) :
    discard (do return f (← bytes (size (← length)))) = (do skip (size (← length))) := by
  rw [discard_bind]
  simp only [discard_map, discard_bytes]

theorem run_narrow (wide : Read UInt64) (f : UInt32 → β) (c : Cursor) :
    (do return f (← narrow (← wide)) : Read β) c = match wide c with
      | .ok value last =>
        if value.toNat < 2 ^ 32 then .ok (f value.toUInt32) last
        else .error (last.fault (.offsetPastWord value)) last
      | .error e last => .error e last := by
  rw [run_bind]
  cases wide c with
  | error e last => rfl
  | ok value last =>
    unfold narrow
    simp only
    split <;> rfl

theorem discard_narrow_sized (f : UInt32 → β) : discard (do return f (← narrow (← sized 4))) = skip 4 := by
  funext c
  rw [← discard_number, run_discard, run_discard, run_narrow]
  have hsized : sized 4 = do return UInt64.ofNat (← number 4) := rfl
  rw [hsized, run_bind]
  cases hnumber : number 4 c with
  | error e next => rfl
  | ok n next =>
    obtain ⟨-, hlength, rfl⟩ := takes_number 4 c n next hnumber
    have hlt := littleEndian_lt (c.upTo next)
    rw [hlength] at hlt
    have hfits : (UInt64.ofNat (littleEndian (c.upTo next))).toNat < 2 ^ 32 := by
      rw [UInt64.toNat_ofNat']
      omega
    simp only [pure, EStateM.pure, if_pos hfits]

end Read

namespace Form

/-- A reference is written at the place, perhaps behind numbers of forms, whose offset does not fit in a word. -/
inductive WideReference : Form → Cursor → (offset : UInt64) → Prop
  | ref8 {c next : Cursor} {offset : UInt64} (hread : long c = .ok offset next) (hwide : 2 ^ 32 ≤ offset.toNat) :
      WideReference .ref8 c offset
  | refUdata {c next : Cursor} {offset : UInt64} (hread : unsigned c = .ok offset next)
      (hwide : 2 ^ 32 ≤ offset.toNat) : WideReference .refUdata c offset
  | indirect {c next : Cursor} {code offset : UInt64} (hcode : unsigned c = .ok code next)
      (hfits : code.toNat < 2 ^ 16) (h : WideReference (.ofCode code.toUInt16) next offset) :
      WideReference .indirect c offset

/-- The value has no bytes, and its place is behind the end. -/
def EmptyBehindEnd (form : Form) (c : Cursor) : Prop := form ∈ formsOfSize 0 ∧ c.limit < c.position

variable {encoding : Encoding} {c : Cursor}

theorem not_emptyBehindEnd (hinside : c.position ≤ c.limit) (form : Form) : ¬ form.EmptyBehindEnd c :=
  fun h => Nat.not_lt.mpr hinside h.2

theorem run_emptyBehindEnd {form : Form} (h : form.EmptyBehindEnd c) (encoding : Encoding) (implicit : Option Int64) :
    (∃ value, form.read encoding implicit c = .ok value c) ∧ form.skip encoding c = .error c.endFault c := by
  obtain ⟨hform, hbehind⟩ := h
  have hskip : Read.skip 0 c = .error c.endFault c := if_neg (Nat.not_le.mpr hbehind)
  rcases List.mem_pair.mp hform with rfl | rfl
  · exact ⟨⟨_, rfl⟩, hskip⟩
  · exact ⟨⟨_, rfl⟩, hskip⟩

/-! ## Forms that are not indirect -/

theorem discard_readDirect_eq (hsize : encoding.addressSize = 4) (implicit : Option Int64) {form : Form}
    (hform : form ∉ [flagPresent, implicitConst, ref8, refUdata]) :
    discard (readDirect encoding implicit form) = skipDirect encoding form := by
  obtain ⟨version, addressSize⟩ := encoding
  obtain rfl : addressSize = 4 := hsize
  cases form
  case flagPresent | implicitConst | ref8 | refUdata => simp at hform
  case addrx1 | data1 | strx1 => exact (discard_map _ _).trans (discard_constant 1)
  case addrx2 | data2 | strx2 => exact (discard_map _ _).trans (discard_constant 2)
  case addrx3 | strx3 => exact (discard_map _ _).trans (discard_constant 3)
  case addrx4 | data4 | strx4 | refSup4 | gnuRefAlt => exact (discard_map _ _).trans (discard_constant 4)
  case data8 => exact (discard_map _ _).trans (discard_constant 8)
  case data16 => exact (discard_map _ _).trans (discard_bytes 16)
  case flag | ref1 => exact (discard_map _ _).trans discard_byte
  case ref2 => exact (discard_map _ _).trans discard_half
  case address | ref4 | strp | lineStrp | strpSup | gnuStrpAlt | secOffset =>
    exact (discard_map _ _).trans discard_word
  case refSup8 | refSig8 => exact (discard_map _ _).trans discard_long
  case refAddr =>
    have hreference : (Encoding.mk version 4).infoReferenceSize = 4 := by
      unfold Encoding.infoReferenceSize
      split <;> rfl
    show discard (do return AttributeValue.infoReference (← narrow (← sized (Encoding.mk version 4).infoReferenceSize))) =
      Read.skip (Encoding.mk version 4).infoReferenceSize.toNat
    rw [hreference]
    exact discard_narrow_sized _
  case udata | strx | addrx | loclistx | rnglistx | gnuAddrIndex | gnuStrIndex => exact discard_map _ _
  case sdata => exact discard_map _ _
  case string => exact discard_map _ _
  case block1 => exact discard_block byte UInt8.toNat _
  case block2 => exact discard_block half UInt16.toNat _
  case block4 => exact discard_block word UInt32.toNat _
  case block | exprloc => exact discard_block unsigned UInt64.toNat _
  case indirect | other => rfl

theorem discard_readDirect (hsize : encoding.addressSize = 4) (implicit : Option Int64) {form : Form}
    (hform : form ∉ [ref8, refUdata]) (hplace : ¬ form.EmptyBehindEnd c) :
    discard (readDirect encoding implicit form) c = skipDirect encoding form c := by
  by_cases hempty : form ∈ formsOfSize 0
  · have hinside := Nat.not_lt.mp fun hbehind => hplace ⟨hempty, hbehind⟩
    have hskip : Read.skip 0 c = .ok () c := if_pos hinside
    rcases List.mem_pair.mp hempty with rfl | rfl
    · exact hskip.symm
    · exact hskip.symm
  · rw [discard_readDirect_eq hsize implicit]
    simp only [formsOfSize, List.mem_cons, List.not_mem_nil, or_false, not_or] at hform hempty ⊢
    exact ⟨hempty.1, hempty.2, hform.1, hform.2⟩

/-- The two go the same way, or one passes over a reference that the other cannot read. -/
def GoAlike (read : Read AttributeValue) (pass : Read Unit) (wide : UInt64 → Prop) (c : Cursor) : Prop :=
  (discard read c = pass c ∧ ∀ offset, ¬ wide offset) ∨
    ∃ offset next, wide offset ∧ read c = .error (next.fault (.offsetPastWord offset)) next ∧ pass c = .ok () next

theorem GoAlike.congr {read read' : Read AttributeValue} {pass pass' : Read Unit} {wide wide' : UInt64 → Prop}
    {c' : Cursor} (hread : read c = read' c') (hpass : pass c = pass' c') (hwide : ∀ offset, wide offset ↔ wide' offset)
    (h : GoAlike read' pass' wide' c') : GoAlike read pass wide c := by
  unfold GoAlike at h ⊢
  rw [run_discard] at h ⊢
  simp only [hread, hpass, hwide]
  exact h

theorem goAlike_narrow {form : Form} {wide : Read UInt64}
    (hwide : ∀ offset, WideReference form c offset ↔ ∃ next, wide c = .ok offset next ∧ 2 ^ 32 ≤ offset.toNat) :
    GoAlike (do return .unitReference (← narrow (← wide))) (discard wide) (WideReference form c) c := by
  unfold GoAlike
  rw [run_discard, run_narrow, run_discard]
  cases hread : wide c with
  | error e next =>
    refine .inl ⟨rfl, fun offset h => ?_⟩
    obtain ⟨_, hok, -⟩ := (hwide offset).mp h
    cases hread.symm.trans hok
  | ok offset next =>
    by_cases hfits : offset.toNat < 2 ^ 32
    · refine .inl ⟨by simp only [if_pos hfits], fun offset' h => ?_⟩
      obtain ⟨_, hok, hlarge⟩ := (hwide offset').mp h
      cases hread.symm.trans hok
      omega
    · refine .inr ⟨offset, next, (hwide offset).mpr ⟨next, hread, by omega⟩, ?_, rfl⟩
      simp only [if_neg hfits]

theorem goAlike_direct (hsize : encoding.addressSize = 4) (implicit : Option Int64) {form : Form}
    (hdirect : form ≠ .indirect) (hplace : ¬ form.EmptyBehindEnd c) :
    GoAlike (readDirect encoding implicit form) (skipDirect encoding form) (WideReference form c) c := by
  by_cases hform : form ∈ [ref8, refUdata]
  · rcases List.mem_pair.mp hform with rfl | rfl
    · have hskip : skipDirect encoding .ref8 = discard long := discard_long.symm
      rw [hskip]
      refine goAlike_narrow fun offset => ⟨fun h => ?_, fun ⟨next, hread, hwide⟩ => .ref8 hread hwide⟩
      cases h with
      | ref8 hread hwide => exact ⟨_, hread, hwide⟩
    · refine goAlike_narrow fun offset => ⟨fun h => ?_, fun ⟨next, hread, hwide⟩ => .refUdata hread hwide⟩
      cases h with
      | refUdata hread hwide => exact ⟨_, hread, hwide⟩
  · refine .inl ⟨discard_readDirect hsize implicit hform hplace, fun offset h => ?_⟩
    cases h with
    | ref8 => exact hform (.head _)
    | refUdata => exact hform (.tail _ (.head _))
    | indirect => exact hdirect rfl

/-! ## Chains of indirections -/

theorem indirectForm_eq_ok {form : Form} {next : Cursor} : indirectForm c = .ok form next ↔
    ∃ code, unsigned c = .ok code next ∧ code.toNat < 2 ^ 16 ∧ form = .ofCode code.toUInt16 := by
  constructor
  · intro h
    obtain ⟨code, middle, hcode, h⟩ := ran_of_bind h
    split at h
    · rename_i hfits
      cases h
      exact ⟨code, hcode, hfits, rfl⟩
    · cases h
  · rintro ⟨code, hcode, hfits, rfl⟩
    rw [indirectForm, run_bind_of_ok hcode, if_pos hfits]
    rfl

theorem wideReference_indirect {offset : UInt64} : WideReference .indirect c offset ↔
    ∃ form next, indirectForm c = .ok form next ∧ WideReference form next offset := by
  constructor
  · intro h
    cases h with
    | indirect hcode hfits h => exact ⟨_, _, indirectForm_eq_ok.mpr ⟨_, hcode, hfits, rfl⟩, h⟩
  · rintro ⟨form, next, hnext, h⟩
    obtain ⟨code, hcode, hfits, rfl⟩ := indirectForm_eq_ok.mp hnext
    exact .indirect hcode hfits h

theorem left_lt_of_unsigned {value : UInt64} {next : Cursor} (h : unsigned c = .ok value next) :
    c.Ahead next ∧ next.left < c.left := by
  obtain ⟨hahead, hvalue⟩ := takes_unsigned c value next h
  have hlength := List.length_pos_iff.mpr (ne_nil_of_isUnsigned hvalue)
  rw [hahead.length_upTo] at hlength
  obtain ⟨count, rfl, hcount⟩ := id hahead
  simp only [Cursor.left, Cursor.advance] at hlength hcount ⊢
  exact ⟨hahead, by omega⟩

theorem directFor_of_ne {form : Form} (hform : form ≠ .indirect) (budget : Nat) :
    directFor budget form = pure form := by
  cases budget with
  | zero => rfl
  | succ budget => cases form <;> first | rfl | exact absurd rfl hform

theorem run_directFor_indirect (budget : Nat) (c : Cursor) :
    directFor (budget + 1) .indirect c = match indirectForm c with
      | .ok form next => directFor budget form next
      | .error e next => .error e next := by
  show (indirectForm >>= directFor budget) c = _
  rw [run_bind]
  cases indirectForm c <;> rfl

theorem directFor_eq {budget budget' : Nat} (form : Form) (h : c.left < budget) (h' : c.left < budget') :
    directFor budget form c = directFor budget' form c := by
  induction budget generalizing budget' form c with
  | zero => omega
  | succ budget ih =>
    obtain _ | budget' := budget'
    · omega
    by_cases hform : form = .indirect
    · subst hform
      rw [run_directFor_indirect, run_directFor_indirect]
      cases hnext : indirectForm c with
      | error e next => rfl
      | ok form next =>
        obtain ⟨code, hcode, -⟩ := indirectForm_eq_ok.mp hnext
        have hleft := (left_lt_of_unsigned hcode).2
        exact ih form (by omega) (by omega)
    · rw [directFor_of_ne hform, directFor_of_ne hform]

theorem direct_of_ne {form : Form} (hform : form ≠ .indirect) : form.direct = pure form := by
  funext c
  exact congrFun (directFor_of_ne hform _) c

theorem run_direct_indirect (c : Cursor) : Form.indirect.direct c = match indirectForm c with
    | .ok form next => form.direct next
    | .error e next => .error e next := by
  refine (run_directFor_indirect c.left c).trans ?_
  cases hnext : indirectForm c with
  | error e next => rfl
  | ok form next =>
    obtain ⟨code, hcode, -⟩ := indirectForm_eq_ok.mp hnext
    have hleft := (left_lt_of_unsigned hcode).2
    exact directFor_eq form hleft (Nat.lt_succ_self _)

theorem run_indirect {α : Type} (use : Form → Read α) (c : Cursor) :
    (Form.indirect.direct >>= use) c = match indirectForm c with
      | .ok form next => (form.direct >>= use) next
      | .error e next => .error e next := by
  rw [run_bind, run_direct_indirect]
  cases indirectForm c with
  | error e next => rfl
  | ok form next => exact (run_bind _ _ next).symm

theorem goAlike (hsize : encoding.addressSize = 4) (implicit : Option Int64) {form : Form}
    (hplace : ¬ form.EmptyBehindEnd c) :
    GoAlike (form.read encoding implicit) (form.skip encoding) (WideReference form c) c := by
  induction hleft : c.left using Nat.strong_induction_on generalizing form c with
  | _ left ih =>
    by_cases hform : form = .indirect
    · subst hform
      have hread := run_indirect (readDirect encoding implicit) c
      have hskip := run_indirect (skipDirect encoding) c
      change Form.indirect.read encoding implicit c = _ at hread
      change Form.indirect.skip encoding c = _ at hskip
      cases hnext : indirectForm c with
      | error e next =>
        rw [hnext] at hread hskip
        refine .inl ⟨?_, fun offset h => ?_⟩
        · rw [run_discard, hread, hskip]
        · obtain ⟨_, _, hok, -⟩ := wideReference_indirect.mp h
          cases hnext.symm.trans hok
      | ok form next =>
        rw [hnext] at hread hskip
        obtain ⟨code, hcode, -⟩ := indirectForm_eq_ok.mp hnext
        obtain ⟨hahead, hless⟩ := left_lt_of_unsigned hcode
        have hinside : next.position ≤ next.limit := by
          unfold Cursor.left at hless
          exact hahead.le_limit (by omega)
        refine GoAlike.congr hread hskip (fun offset => ?_)
          (ih next.left (hleft ▸ hless) (not_emptyBehindEnd hinside form) rfl)
        rw [wideReference_indirect]
        constructor
        · rintro ⟨_, _, hok, h⟩
          cases hnext.symm.trans hok
          exact h
        · exact fun h => ⟨form, next, hnext, h⟩
    · have hread : form.read encoding implicit = readDirect encoding implicit form := by
        unfold read
        rw [direct_of_ne hform, pure_bind]
      have hskip : form.skip encoding = skipDirect encoding form := by
        unfold skip
        rw [direct_of_ne hform, pure_bind]
      rw [hread, hskip]
      exact goAlike_direct hsize implicit hform hplace

/-! ## Where values are passed over -/

theorem mem_formsOfSize_zero (hsize : encoding.addressSize = 4) {form : Form} {bytes : List UInt8}
    (h : ValueBytes encoding form bytes) (hbytes : bytes = []) : form ∈ formsOfSize 0 := by
  cases h with
  | sized hmem =>
    rw [hbytes] at hmem
    exact hmem
  | address hlength | oldReference _ hlength =>
    rw [hbytes, hsize] at hlength
    cases hlength
  | reference _ hlength =>
    rw [hbytes] at hlength
    cases hlength
  | string => exact absurd hbytes (List.append_ne_nil_of_right_ne_nil _ nofun)
  | block1 => cases hbytes
  | block2 hlength | block4 hlength =>
    rw [(List.append_eq_nil_iff.mp hbytes).1] at hlength
    cases hlength
  | block _ hlength => exact absurd (List.append_eq_nil_iff.mp hbytes).1 (ne_nil_of_isUnsigned hlength)
  | signed hvalue =>
    rw [hbytes] at hvalue
    cases hvalue
  | unsigned _ hvalue => exact absurd hbytes (ne_nil_of_isUnsigned hvalue)
  | indirect hcode => exact absurd (List.append_eq_nil_iff.mp hbytes).1 (ne_nil_of_isUnsigned hcode)

theorem inside_of_skip (hsize : encoding.addressSize = 4) {form : Form} {next : Cursor}
    (h : form.skip encoding c = .ok () next) : c.position ≤ c.limit := by
  obtain ⟨⟨count, rfl, hcount⟩, hvalue⟩ := takes_skip form c () next h
  rcases hcount with rfl | hcount
  · have hnone : c.upTo (c.advance 0) = [] := c.upTo_self
    rcases List.mem_pair.mp (mem_formsOfSize_zero hsize hvalue hnone) with rfl | rfl
    all_goals exact (run_skip_eq_ok_iff.mp h).1
  · omega

theorem inside_of_wideReference {form : Form} {offset : UInt64} (h : WideReference form c offset) :
    c.position ≤ c.limit := by
  have hunsigned {value : UInt64} {next : Cursor} (h : unsigned c = .ok value next) : c.position ≤ c.limit := by
    have hleft := (left_lt_of_unsigned h).2
    unfold Cursor.left at hleft
    omega
  cases h with
  | ref8 hread hwide =>
    have hskip := run_discard long c
    rw [discard_long, hread] at hskip
    have := (run_skip_eq_ok_iff.mp hskip).1
    omega
  | refUdata hread => exact hunsigned hread
  | indirect hcode => exact hunsigned hcode

theorem wideReference_unique {form : Form} {offset offset' : UInt64} (h : WideReference form c offset)
    (h' : WideReference form c offset') : offset = offset' := by
  induction h with
  | ref8 hread =>
    cases h' with
    | ref8 hread' =>
      cases hread.symm.trans hread'
      rfl
  | refUdata hread =>
    cases h' with
    | refUdata hread' =>
      cases hread.symm.trans hread'
      rfl
  | indirect hcode _ _ ih =>
    cases h' with
    | indirect hcode' _ h' =>
      cases hcode.symm.trans hcode'
      exact ih h'

theorem skip_of_fixedSize {form : Form} {size : Nat} (hsize : form.fixedSize encoding = some size) :
    form.skip encoding = Read.skip size := by
  have hdirect : form ≠ .indirect := by
    rintro rfl
    cases hsize
  unfold skip
  rw [direct_of_ne hdirect, pure_bind]
  unfold skipDirect
  rw [hsize]

theorem advance_of_skip {form : Form} {size : Nat} {next : Cursor} (hsize : form.fixedSize encoding = some size)
    (h : form.skip encoding c = .ok () next) : next = c.advance size := by
  rw [skip_of_fixedSize hsize] at h
  exact (run_skip_eq_ok_iff.mp h).2

theorem skip_of_read (hsize : encoding.addressSize = 4) {implicit : Option Int64} {form : Form}
    {value : AttributeValue} {next : Cursor} (hplace : ¬ form.EmptyBehindEnd c)
    (h : form.read encoding implicit c = .ok value next) : form.skip encoding c = .ok () next := by
  rcases goAlike hsize implicit hplace with ⟨hsame, -⟩ | ⟨_, _, -, hfault, -⟩
  · rw [run_discard, h] at hsame
    exact hsame.symm
  · cases h.symm.trans hfault

theorem read_of_skip (hsize : encoding.addressSize = 4) (implicit : Option Int64) {form : Form} {next : Cursor}
    (h : form.skip encoding c = .ok () next) :
    ((∃ value, form.read encoding implicit c = .ok value next) ↔ ∀ offset, ¬ WideReference form c offset) ∧
      ∀ offset, WideReference form c offset →
        form.read encoding implicit c = .error (next.fault (.offsetPastWord offset)) next := by
  rcases goAlike hsize implicit (not_emptyBehindEnd (inside_of_skip hsize h) form) with
    ⟨hsame, hnone⟩ | ⟨offset, last, hwide, hfault, hpass⟩
  · rw [run_discard, h] at hsame
    cases hread : form.read encoding implicit c with
    | error e last =>
      rw [hread] at hsame
      cases hsame
    | ok value last =>
      rw [hread] at hsame
      cases hsame
      exact ⟨⟨fun _ => hnone, fun _ => ⟨value, rfl⟩⟩, fun offset hwide => absurd hwide (hnone offset)⟩
  · cases h.symm.trans hpass
    refine ⟨⟨fun ⟨value, hread⟩ => ?_, fun hnone => absurd hwide (hnone offset)⟩, fun offset' hwide' => ?_⟩
    · cases hread.symm.trans hfault
    · rw [wideReference_unique hwide' hwide]
      exact hfault

theorem advance_of_read (hsize : encoding.addressSize = 4) {implicit : Option Int64} {form : Form} {size : Nat}
    (hfixed : form.fixedSize encoding = some size) {value : AttributeValue} {next : Cursor}
    (h : form.read encoding implicit c = .ok value next) : next = c.advance size := by
  by_cases hplace : form.EmptyBehindEnd c
  · -- Nothing can be passed over here, but what takes no bytes is read without going on.
    obtain ⟨_, hread⟩ := (run_emptyBehindEnd hplace encoding implicit).1
    have hnone : size = 0 := by
      rcases List.mem_pair.mp hplace.1 with rfl | rfl
      · exact (Option.some.inj hfixed).symm
      · exact (Option.some.inj hfixed).symm
    cases h.symm.trans hread
    rw [hnone]
    rfl
  · exact advance_of_skip hfixed (skip_of_read hsize hplace h)

/--
What is read is passed over alike, unless it has no bytes and stands behind the end, where it is read but
cannot be passed over. What is passed over is read alike, unless it is a reference that does not fit in a word;
that reference is a malformed value. Forms of a fixed size take as many bytes.
-/
theorem read_skip_agree (version : UInt16) (implicit : Option Int64) (form : Form) (c : Cursor) :
    (∀ value next, form.read ⟨version, 4⟩ implicit c = .ok value next →
      (form.skip ⟨version, 4⟩ c = .ok () next ↔ ¬ form.EmptyBehindEnd c)) ∧
    (form.EmptyBehindEnd c → (∃ value, form.read ⟨version, 4⟩ implicit c = .ok value c) ∧
      form.skip ⟨version, 4⟩ c = .error c.endFault c) ∧
    (∀ next, form.skip ⟨version, 4⟩ c = .ok () next →
      ((∃ value, form.read ⟨version, 4⟩ implicit c = .ok value next) ↔ ∀ offset, ¬ WideReference form c offset) ∧
      ∀ offset, WideReference form c offset →
        form.read ⟨version, 4⟩ implicit c = .error (next.fault (.offsetPastWord offset)) next) ∧
    (∀ offset, WideReference form c offset → ∃ next, form.skip ⟨version, 4⟩ c = .ok () next) ∧
    ∀ size, form.fixedSize ⟨version, 4⟩ = some size →
      (∀ next, form.skip ⟨version, 4⟩ c = .ok () next → next = c.advance size) ∧
      ∀ value next, form.read ⟨version, 4⟩ implicit c = .ok value next → next = c.advance size := by
  have hencoding : (Encoding.mk version 4).addressSize = 4 := rfl
  refine ⟨fun value next hread => ⟨fun hskip => ?_, fun hplace => skip_of_read hencoding hplace hread⟩,
    fun hplace => run_emptyBehindEnd hplace _ implicit, fun next hskip => read_of_skip hencoding implicit hskip,
    fun offset hwide => ?_, fun size hsize => ⟨fun next hskip => advance_of_skip hsize hskip,
      fun value next hread => advance_of_read hencoding hsize hread⟩⟩
  · exact not_emptyBehindEnd (inside_of_skip hencoding hskip) form
  · have hplace := not_emptyBehindEnd (inside_of_wideReference hwide) form
    rcases goAlike hencoding implicit hplace with ⟨-, hnone⟩ | ⟨_, last, -, -, hpass⟩
    · exact absurd hwide (hnone offset)
    · exact ⟨last, hpass⟩

/-- An indirect reference to `0x100000000`, and a number. -/
def wideThenNarrow : Cursor := .place ".debug_info" #[0x15, 0x80, 0x80, 0x80, 0x80, 0x10, 7, 1] 0

theorem read_skip_wideThenNarrow :
    (indirect.skip ⟨4, 4⟩ wideThenNarrow = .ok () (wideThenNarrow.advance 6) ∧
      WideReference indirect wideThenNarrow 0x100000000 ∧
      indirect.read ⟨4, 4⟩ none wideThenNarrow =
        .error (.malformed ".debug_info" 6 (.offsetPastWord 0x100000000)) (wideThenNarrow.advance 6)) ∧
    (¬ data2.EmptyBehindEnd (wideThenNarrow.advance 6) ∧
      data2.read ⟨4, 4⟩ none (wideThenNarrow.advance 6) = .ok (.constant 0x107) (wideThenNarrow.advance 8) ∧
      data2.skip ⟨4, 4⟩ (wideThenNarrow.advance 6) = .ok () (wideThenNarrow.advance 8)) ∧
    flagPresent.EmptyBehindEnd (wideThenNarrow.advance 9) ∧
    flagPresent.skip ⟨4, 4⟩ (wideThenNarrow.advance 9) =
      .error (.endOfSection ".debug_info" 9) (wideThenNarrow.advance 9) := by
  have hskip : indirect.skip ⟨4, 4⟩ wideThenNarrow = .ok () (wideThenNarrow.advance 6) := rfl
  have hcode : unsigned wideThenNarrow = .ok 0x15 (wideThenNarrow.advance 1) := rfl
  have hoffset : unsigned (wideThenNarrow.advance 1) = .ok 0x100000000 (wideThenNarrow.advance 6) := rfl
  have hwide : WideReference indirect wideThenNarrow 0x100000000 :=
    .indirect hcode (by decide) (.refUdata hoffset (by decide))
  have hsome : ¬ data2.EmptyBehindEnd (wideThenNarrow.advance 6) := not_emptyBehindEnd (by decide) data2
  have hread : data2.read ⟨4, 4⟩ none (wideThenNarrow.advance 6) =
      .ok (.constant 0x107) (wideThenNarrow.advance 8) := rfl
  have hbehind : flagPresent.EmptyBehindEnd (wideThenNarrow.advance 9) := ⟨.head _, by decide⟩
  refine ⟨⟨hskip, hwide, ?_⟩, ⟨hsome, hread, ?_⟩, hbehind, ?_⟩
  · exact ((read_skip_agree 4 none indirect wideThenNarrow).2.2.1 _ hskip).2 _ hwide
  · exact ((read_skip_agree 4 none data2 (wideThenNarrow.advance 6)).1 _ _ hread).mpr hsome
  · exact ((read_skip_agree 4 none flagPresent (wideThenNarrow.advance 9)).2.1 hbehind).2

/-- Behind the end of one byte a flag without bytes is read, and nothing can be passed over. -/
theorem not_skip_behindEnd : ¬ ∀ (version : UInt16) (implicit : Option Int64) (form : Form) (c : Cursor)
    (value : AttributeValue) (next : Cursor), form.read ⟨version, 4⟩ implicit c = .ok value next →
      form.skip ⟨version, 4⟩ c = .ok () next := by
  intro h
  cases h 4 none flagPresent (.place ".debug_info" #[0] 2) (.flag true) (.place ".debug_info" #[0] 2) rfl

end Form

end FirmwareDebug
