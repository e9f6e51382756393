import FirmwareDebug.Proofs.Expression.Modes

/-!
# What stands in front of a mark

A program that stops at an operation has the words of the operations in front of it. But a typed operation makes its
first word before its type is looked at, and where a cell cannot hold that type the word is left over.
-/

namespace FirmwareDebug.Expression

/-- A program that stops has just the words of the operations in front of the one where it stops. -/
def StopsClean (info : DebugInfo) (unit : UInt32) (expression : List UInt8) : Prop :=
  ∀ program opcode, compile info .diagnostic unit expression = .ok (program ++ [.unsupported opcode]) →
    ∃ position target fault, StopsAt info unit expression position opcode program fault ∧
      expression[position]? = some opcode ∧ Arrives info unit expression position target program ∧
      ∀ place, target = some place → position < place

/-- A typed operation that nothing is wrong with but its type. -/
def Halfway (info : DebugInfo) (unit : UInt32) : Operation → Prop
  | .typedConstant type bytes => bytes.length ≤ 4 ∧ convertWord? info unit type = none
  | .typedRegister _ type => convertWord? info unit type = none
  | .typedDeref size type => size ≠ 0 ∧ size ≤ 4 ∧ convertWord? info unit type = none
  | _ => False

variable {info : DebugInfo} {unit type : UInt32} {expression : List UInt8} {position : Nat} {target : Option Nat}
  {opcode : UInt8} {operation : Operation} {next : Cursor} {made leftover words : List Word} {fault : Fault}

/-! ## Words that are left over -/

theorem thenConvert_eq_refused : thenConvert info unit type words = .refused leftover ↔
    convertWord? info unit type = none ∧ words = leftover := by
  rw [thenConvert]
  cases convertWord? info unit type <;> simp

theorem halfway_iff : Halfway info unit operation ↔
    ∃ leftover, leftover ≠ [] ∧ compileOperation info unit operation = .ok (.refused leftover) := by
  cases operation with
  | typedConstant type bytes =>
    simp only [Halfway, compileOperation]
    by_cases hlong : 4 < bytes.length
    · simp [if_pos hlong, Nat.not_le_of_lt hlong]
    · simp [if_neg hlong, Nat.le_of_not_lt hlong, thenConvert_eq_refused]
  | typedRegister register type => simp [Halfway, compileOperation, thenConvert_eq_refused]
  | typedDeref size type =>
    simp only [Halfway, compileOperation]
    by_cases hsize : size = 0 ∨ 4 < size
    · simp only [if_pos hsize]
      grind
    · have hfits : size ≠ 0 ∧ size ≤ 4 := by grind
      simp only [if_neg hsize]
      simp [hfits, thenConvert_eq_refused]
  | bitPiece size offset =>
    simp only [Halfway, compileOperation]
    split <;> simp
  | convert type =>
    simp only [Halfway, compileOperation]
    split <;> simp [thenConvert_eq_refused]
  | addressIndex index =>
    simp only [Halfway, compileOperation]
    cases info.unitWithHeader unit with
    | none => simp
    | some summary =>
      cases haddress : info.sections.addressAt summary.bases index <;>
        simp [haddress, bind, Except.bind, pure, Except.pure]
  | _ => simp [Halfway, compileOperation]

/-! ## Where programs stop clean -/

theorem StopsAt.compile_eq (h : StopsAt info unit expression position opcode made fault) :
    compile info .diagnostic unit expression = .ok (made ++ [.unsupported opcode]) := by
  rw [compile, h.compiledWords_eq]
  rfl

theorem StopsAt.unique {otherPosition : Nat} {otherOpcode : UInt8} {otherMade : List Word} {otherFault : Fault}
    (h : StopsAt info unit expression position opcode made fault)
    (hother : StopsAt info unit expression otherPosition otherOpcode otherMade otherFault) :
    made = otherMade ∧ opcode = otherOpcode ∧ fault = otherFault := by
  cases h.compiledWords_eq.symm.trans hother.compiledWords_eq
  exact ⟨rfl, rfl, rfl⟩

theorem StopsAt.position_eq {found : UInt8} {place : Nat}
    (h : StopsAt info unit expression position opcode made (.unsupportedOpcode found place)) : position = place := by
  cases h
  rfl

theorem exists_stopsAt (h : compile info .diagnostic unit expression = .ok (made ++ [.unsupported opcode])) :
    ∃ position fault, StopsAt info unit expression position opcode made fault := by
  rcases modes_cases info unit expression with ⟨program, hclean, hmodes⟩ | ⟨fault, -, hmodes⟩ |
    ⟨position, found, words, fault, program, hstops, -, hdiagnostic, hmarked, -⟩
  · cases (hmodes .diagnostic).symm.trans h
    exact absurd (hclean.symm.trans (hasUnsupported_marked made opcode)) Bool.false_ne_true
  · cases (hmodes .diagnostic).symm.trans h
  · have hsame : words ++ [.unsupported found] = made ++ [.unsupported opcode] :=
      hmarked.symm.trans (Except.ok.inj (hdiagnostic.symm.trans h))
    obtain ⟨rfl, hmark⟩ := List.append_inj' hsame rfl
    cases hmark
    exact ⟨position, fault, hstops⟩

theorem StopsClean.not_halfway (h : StopsClean info unit expression)
    (arrives : Arrives info unit expression position target made)
    (due : Due expression position target opcode operation next) : ¬ Halfway info unit operation := by
  intro hhalfway
  obtain ⟨leftover, hleftover, compiled⟩ := halfway_iff.mp hhalfway
  have hstops := StopsAt.untranslated arrives due compiled
  obtain ⟨place, target', fault, hclean, -, arrives', waiting⟩ := h _ _ hstops.compile_eq
  obtain ⟨-, -, rfl⟩ := hclean.unique hstops
  obtain rfl := hclean.position_eq
  -- The operation is due behind the word that is left over as well, and would leave it once more.
  have hagain := StopsAt.untranslated arrives' ⟨due.inside, waiting, due.decoded⟩ compiled
  exact hleftover (List.self_eq_append_right.mp (hstops.unique hagain).1)

/--
A program stops clean just in case no operation that the translation comes to is a typed one that nothing
is wrong with but its type.
-/
theorem stopsClean_iff (info : DebugInfo) (unit : UInt32) (expression : List UInt8) :
    StopsClean info unit expression ↔ ∀ position target opcode operation next made,
      Arrives info unit expression position target made → Due expression position target opcode operation next →
        ¬ Halfway info unit operation := by
  constructor
  · intro h position target opcode operation next made arrives due
    exact h.not_halfway arrives due
  · intro h program opcode hcompile
    obtain ⟨position, fault, hstops⟩ := exists_stopsAt hcompile
    have hopcode := hstops.opcode_eq
    cases id hstops with
    | @untranslated target operation next made leftover arrives due compiled =>
      have hleftover : leftover = [] := by
        by_contra hleftover
        exact h _ _ _ _ _ _ arrives due (halfway_iff.mpr ⟨leftover, hleftover, compiled⟩)
      subst hleftover
      rw [List.append_nil] at hstops ⊢
      exact ⟨position, target, _, hstops, hopcode, arrives, due.waiting⟩
    | backward arrives due => exact ⟨position, _, _, hstops, hopcode, arrives, due.waiting⟩
    | nested arrives due => exact ⟨position, _, _, hstops, hopcode, arrives, due.waiting⟩

/-- A unit with a signed type of eight bytes, at offset 12. -/
def longLong : Sections where
  info := #[12, 0, 0, 0, 4, 0, 0, 0, 0, 0, 4, 1, 2, 8, 5, 0]
  abbreviations := #[1, 0x11, 1, 0, 0, 2, 0x24, 0, 0x0b, 0x0b, 0x3e, 0x0b, 0, 0, 0]

theorem convertWord_longLong : (DebugInfo.build longLong).toOption.map (convertWord? · 0 12) = some none := by
  decide +kernel

/-- Register 4 of that type: the word for the register stands in front of the mark. -/
theorem not_stopsClean_longLong : ∃ info, DebugInfo.build longLong = .ok info ∧
    ¬ StopsClean info 0 [0xa5, 4, 12] := by
  obtain ⟨info, hbuild, htype⟩ := Option.map_eq_some_iff.mp convertWord_longLong
  refine ⟨info, ok_of_toOption hbuild, fun h => ?_⟩
  have due : Due [0xa5, 4, 12] 0 none 0xa5 (.typedRegister 4 12) _ := ⟨by decide, nofun, rfl⟩
  exact h.not_halfway .start due htype

end FirmwareDebug.Expression
