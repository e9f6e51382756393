import FirmwareDebug.Proofs.Layout
import FirmwareDebug.Proofs.Number
import Mathlib.Data.Int.ModEq

/-!
# Enumerators by name

The bytes of an enumeration stand for a number with a sign unless its entry gives an encoding without one. The
name behind a number is that of the first enumerator which has that number, so an enumerator is shown by its
name exactly when its value is what its own bytes stand for.
-/

namespace FirmwareDebug

open Text

/-- The bytes of a number of `size` bytes. -/
def valueBytes (size : UInt32) (value : Int64) : List UInt8 :=
  littleEndianBytes size.toNat value.toUInt64.toNat

/-- Two numbers have the same `size` bytes. -/
def SameBytes (size : UInt32) (a b : Int64) : Prop := a.toInt ≡ b.toInt [ZMOD 2 ^ (8 * size.toNat)]

instance (size : UInt32) (a b : Int64) : Decidable (SameBytes size a b) :=
  inferInstanceAs (Decidable (a.toInt ≡ b.toInt [ZMOD 2 ^ (8 * size.toNat)]))

/-- `size` bytes stand for the number. Those of a full word stand for a number with a sign in any case. -/
def StoodFor (isSigned : Bool) (size : UInt32) (value : Int64) : Prop :=
  if isSigned ∨ size = 8 then
    -2 ^ (8 * size.toNat - 1) ≤ value.toInt ∧ value.toInt < 2 ^ (8 * size.toNat - 1)
  else 0 ≤ value.toInt ∧ value.toInt < 2 ^ (8 * size.toNat)

instance (isSigned : Bool) (size : UInt32) (value : Int64) : Decidable (StoodFor isSigned size value) := by
  unfold StoodFor
  infer_instance

/-! ## What the bytes stand for -/

@[simp]
theorem length_valueBytes (size : UInt32) (value : Int64) : (valueBytes size value).length = size.toNat :=
  length_littleEndianBytes _ _

theorem littleEndian_valueBytes {size : UInt32} (hsize : IsNumberSize size) (value : Int64) :
    (littleEndian (valueBytes size value) : Int) = value.toInt % 2 ^ (8 * size.toNat) := by
  have hword : value.toInt = Int.bmod value.toUInt64.toNat (2 ^ 64) := toInt_toInt64 value.toUInt64
  have hdvd : (2 : Int) ^ (8 * size.toNat) ∣ (2 ^ 64 : Nat) := by
    rw [Nat.cast_pow]
    exact pow_dvd_pow 2 (Nat.mul_le_mul_left 8 hsize.le_eight)
  rw [valueBytes, littleEndian_littleEndianBytes_mod, pow_bytes, Int.natCast_mod, Nat.cast_pow, Nat.cast_ofNat, hword]
  exact (Int.ModEq.of_dvd hdvd Int.bmod_emod).symm

namespace Shape

/-- What the bits of a number stand for where they are no bit field. -/
def valueOf (shape : Shape) (raw : UInt64) : Int64 :=
  if shape.isSigned then signExtend raw (shape.size * 8) else raw.toInt64

theorem valueOf_signed {shape : Shape} (hsize : IsNumberSize shape.size)
    (hsigned : shape.isSigned = true ∨ shape.size = 8) (value : Int64) :
    (shape.valueOf (UInt64.ofNat (littleEndian (valueBytes shape.size value)))).toInt =
      Int.bmod value.toInt (2 ^ (8 * shape.size.toNat)) := by
  have hle := hsize.le_eight
  have hlen : (valueBytes shape.size value).length ≤ 8 := by rw [length_valueBytes]; exact hle
  have hnumber : (littleEndian (valueBytes shape.size value) : Int) =
      value.toInt % ((2 ^ (8 * shape.size.toNat) : Nat) : Int) := by
    rw [littleEndian_valueBytes hsize, Nat.cast_pow, Nat.cast_ofNat]
  have hbits := hsize.toNat_bits
  rw [valueOf]
  split
  case isTrue =>
    rw [signExtend_toInt (by have h := hsize.pos; omega) (by omega), hbits, toNat_ofNat_littleEndian hlen, hnumber,
      Int.emod_bmod]
  case isFalse h =>
    have hfull := hsigned.resolve_left h
    rw [hfull] at hnumber hlen ⊢
    rw [toInt_toInt64, toNat_ofNat_littleEndian hlen, hnumber]
    exact Int.emod_bmod value.toInt (2 ^ 64)

theorem valueOf_unsigned {shape : Shape} (hsize : IsNumberSize shape.size)
    (hunsigned : ¬ (shape.isSigned = true ∨ shape.size = 8)) (value : Int64) :
    (shape.valueOf (UInt64.ofNat (littleEndian (valueBytes shape.size value)))).toInt =
      value.toInt % 2 ^ (8 * shape.size.toNat) := by
  obtain ⟨hplain, hshort⟩ := not_or.mp hunsigned
  have hle : shape.size.toNat ≤ 4 := by
    rcases hsize with h | h | h | h
    · rw [h]; decide
    · rw [h]; decide
    · rw [h]; decide
    · exact absurd h hshort
  have hlen : (valueBytes shape.size value).length ≤ 4 := by rw [length_valueBytes]; exact hle
  have hlt : littleEndian (valueBytes shape.size value) < 256 ^ 4 :=
    Nat.lt_of_lt_of_le (littleEndian_lt _) (Nat.pow_le_pow_right (by omega) hlen)
  rw [valueOf, if_neg hplain, toInt_toInt64, toNat_ofNat_littleEndian (by omega),
    Int.bmod_eq_of_le_mul_two (by omega) (by omega), littleEndian_valueBytes hsize]

theorem valueOf_eq_iff {shape : Shape} (hsize : IsNumberSize shape.size) (value other : Int64) :
    shape.valueOf (UInt64.ofNat (littleEndian (valueBytes shape.size value))) = other ↔
      SameBytes shape.size other value ∧ StoodFor shape.isSigned shape.size other := by
  rw [SameBytes, StoodFor, ← Int64.toInt_inj]
  split
  case isTrue hsigned =>
    have hpos := hsize.pos
    rw [valueOf_signed hsize hsigned, bmod_pow_eq_iff (by omega)]
  case isFalse hunsigned =>
    have hweight : (0 : Int) < 2 ^ (8 * shape.size.toNat) := Int.pow_pos (by decide)
    rw [valueOf_unsigned hsize hunsigned]
    constructor
    · intro heq
      rw [← heq]
      exact ⟨Int.mod_modEq _ _, Int.emod_nonneg _ hweight.ne', Int.emod_lt_of_pos _ hweight⟩
    · rintro ⟨hmod, hlow, hhigh⟩
      rw [← Int.emod_eq_of_lt hlow hhigh]
      exact hmod.symm

theorem bitsText_named {shape : Shape} {base : NumericBase} {raw : UInt64} (hwhole : shape.bitSize = 0)
    (hnames : shape.enumerators ≠ []) :
    shape.bitsText base raw = integerText base raw (shape.valueOf raw) shape.isSigned ++
      match shape.enumerators.find? fun enumerator => enumerator.2 = shape.valueOf raw with
      | some (name, _) => " (" ++ name ++ ")"
      | none => "" := by
  have hfield : shape.fieldOf raw = (raw, shape.size * 8) := if_pos hwhole
  rw [bitsText, hfield]
  simp only [List.isEmpty_iff, if_neg hnames, ← valueOf.eq_def]
  cases shape.enumerators.find? fun enumerator => enumerator.2 = shape.valueOf raw with
  | none => rw [String.append_empty]
  | some found => simp only [String.append_assoc]

end Shape

/-! ## Names of enumerators -/

/-- The bytes of a value are shown with a name in brackets behind. -/
def Layout.EndsWithName (layout : Layout) (base : NumericBase) (value : Int64) (name : String) : Prop :=
  ∃ front, (layout.tree base ((valueBytes layout.size value).map some)).value = some (front ++ "(" ++ name ++ ")")

theorem value_of_enumeration {shape : Shape} (hscalar : shape.IsScalar) (hsize : IsNumberSize shape.size)
    (base : NumericBase) (value : Int64) :
    (Layout.tree base ⟨shape, []⟩ ((valueBytes shape.size value).map some)).value =
      some (shape.bitsText base (UInt64.ofNat (littleEndian (valueBytes shape.size value)))) := by
  have hlen := length_valueBytes shape.size value
  rw [Layout.value_of_isScalar hscalar, Shape.scalarText, readNumber_available hsize hlen.ge,
    List.take_of_length_le hlen.le]

variable {shape : Shape} {base : NumericBase} {value : Int64} {name : String}

theorem endsWithName_of_stoodFor {before after : List (String × Int64)} (hscalar : shape.IsScalar)
    (hsize : IsNumberSize shape.size) (hwhole : shape.bitSize = 0)
    (hnames : shape.enumerators = before ++ (name, value) :: after)
    (hfirst : ∀ other ∈ before, ¬ SameBytes shape.size other.2 value)
    (h : StoodFor shape.isSigned shape.size value) :
    Layout.EndsWithName ⟨shape, []⟩ base value name := by
  have hown := (shape.valueOf_eq_iff hsize value value).mpr ⟨Int.ModEq.refl _, h⟩
  have hfind : (shape.enumerators.find? fun enumerator => enumerator.2 = value) = some (name, value) := by
    rw [hnames, List.find?_append, List.find?_eq_none.mpr, Option.none_or, List.find?_cons_of_pos (by simp)]
    intro other hother heq
    have hsame : other.2 = value := by simpa using heq
    exact hfirst other hother (hsame ▸ Int.ModEq.refl _)
  have hne : shape.enumerators ≠ [] := by simp [hnames]
  refine ⟨integerText base (UInt64.ofNat (littleEndian (valueBytes shape.size value))) value shape.isSigned ++ " ", ?_⟩
  rw [value_of_enumeration hscalar hsize, Shape.bitsText_named hwhole hne, hown, hfind]
  simp only [String.append_assoc]
  rfl

theorem stoodFor_of_endsWithName (hscalar : shape.IsScalar) (hsize : IsNumberSize shape.size)
    (hwhole : shape.bitSize = 0) (hne : shape.enumerators ≠ [])
    (honly : ∀ other ∈ shape.enumerators, SameBytes shape.size other.2 value → other.2 = value)
    (h : Layout.EndsWithName ⟨shape, []⟩ base value name) : StoodFor shape.isSigned shape.size value := by
  obtain ⟨front, h⟩ := h
  rw [value_of_enumeration hscalar hsize, Shape.bitsText_named hwhole hne, Option.some_inj] at h
  by_contra hnot
  have hnone : (shape.enumerators.find? fun enumerator =>
      enumerator.2 = shape.valueOf (UInt64.ofNat (littleEndian (valueBytes shape.size value)))) = none := by
    rw [List.find?_eq_none]
    intro other hother heq
    obtain ⟨hsame, hstands⟩ := (shape.valueOf_eq_iff hsize value other.2).mp (of_decide_eq_true heq).symm
    exact hnot (honly other hother hsame ▸ hstands)
  -- The text is a number alone then, and a number has no bracket.
  rw [hnone, String.append_empty] at h
  have hbracket : ')' ∈ (front ++ "(" ++ name ++ ")").toList := by simp
  rw [← h] at hbracket
  exact absurd ((isNumeral_integerText _ _ _ _).2 _ hbracket) (by decide)

namespace DebugInfo

/--
An enumerator before which none has the same bytes is shown by its name if and only if these bytes stand for its
value by the encoding that the enumeration gives, which is one with a sign where it gives none. Only for "only if"
no later one may have its bytes and another value, since that one is shown by its own name.
-/
theorem endsWithName_iff {info : DebugInfo} {nodes : TypeGraph} {index : Nat} {node : TypeNode} {layout : Layout}
    {before after : List (String × Int64)} {name : String} {value : Int64} (hnode : nodes[index]? = some node)
    (hkind : node.kind = .enumeration) (hlayout : info.layoutOf nodes index = .ok layout)
    (hsize : IsNumberSize layout.size) (hnames : layout.enumerators = before ++ (name, value) :: after)
    (hfirst : ∀ other ∈ before, ¬ SameBytes layout.size other.2 value) :
    ∃ encoding, info.encoding? node.offset = .ok encoding ∧
      (StoodFor (encoding.getD .signed).isSigned layout.size value →
        ∀ base, layout.EndsWithName base value name) ∧
      ((∀ other ∈ after, SameBytes layout.size other.2 value → other.2 = value) →
        ∀ base, layout.EndsWithName base value name →
          StoodFor (encoding.getD .signed).isSigned layout.size value) := by
  obtain ⟨_, hlayout⟩ := nodeLayout_of_layoutFor hnode hlayout
  obtain ⟨typeText, size, encoding, enumerators, -, hencoding, -, rfl⟩ := nodeLayout_enumeration hkind hlayout
  let shape : Shape := { typeText, size, encoding := some (encoding.getD .signed), enumerators }
  have hscalar : shape.IsScalar := ⟨rfl, rfl, rfl, rfl, rfl⟩
  have hsign : shape.isSigned = (encoding.getD .signed).isSigned := shape.isSigned_of_encoding rfl
  refine ⟨encoding, hencoding, ?_, ?_⟩
  · intro h base
    exact endsWithName_of_stoodFor hscalar hsize rfl hnames hfirst (hsign ▸ h)
  · intro hlast base h
    have hne : shape.enumerators ≠ [] := by
      intro hnil
      exact absurd (hnames.symm.trans hnil) (by simp)
    have honly : ∀ other ∈ shape.enumerators, SameBytes size other.2 value → other.2 = value := by
      intro other hother hsame
      have hmem : other ∈ before ++ (name, value) :: after := hnames ▸ hother
      rcases List.mem_append.mp hmem with hbefore | hmem
      · exact absurd hsame (hfirst other hbefore)
      · rcases List.mem_cons.mp hmem with rfl | hafter
        · rfl
        · exact hlast other hafter hsame
    exact hsign ▸ stoodFor_of_endsWithName hscalar hsize rfl hne honly h

/-- An enumeration of one byte without an encoding. One value lies in the lower half of the bytes, one does not. -/
def sampleEnumeration : Sections where
  info := #[24, 0, 0, 0, 4, 0, 0, 0, 0, 0, 4, 1, 2, 1, 3, 76, 79, 87, 0, 1, 3, 66, 73, 71, 0, 200, 0, 0]
  abbreviations := #[1, 0x11, 1, 0, 0, 2, 0x04, 1, 0x0b, 0x0b, 0, 0, 3, 0x28, 0, 3, 0x08, 0x1c, 0x0b, 0, 0, 0]

theorem layout_sampleEnumeration : (build sampleEnumeration).toOption.bind (fun info =>
    (info.typeGraph 12).toOption.bind fun nodes => nodes[0]?.bind fun node =>
      (info.layoutOf nodes 0).toOption.map fun layout => (node.kind, layout.size, layout.enumerators,
        (layout.tree .decimal ((valueBytes layout.size 200).map some)).value)) =
      some (.enumeration, 1, [("LOW", 1), ("BIG", 200)], some "-56") := by
  decide +kernel

theorem endsWithName_sampleEnumeration : ∃ info nodes node layout, build sampleEnumeration = .ok info ∧
    info.typeGraph 12 = .ok nodes ∧ nodes[0]? = some node ∧ node.kind = .enumeration ∧
      info.layoutOf nodes 0 = .ok layout ∧ layout.size = 1 ∧ layout.enumerators = [("LOW", 1), ("BIG", 200)] ∧
        ∀ base, layout.EndsWithName base 1 "LOW" := by
  obtain ⟨info, hbuild, h⟩ := Option.bind_eq_some_iff.mp layout_sampleEnumeration
  obtain ⟨nodes, hnodes, h⟩ := Option.bind_eq_some_iff.mp h
  obtain ⟨node, hnode, h⟩ := Option.bind_eq_some_iff.mp h
  obtain ⟨layout, hlayout, h⟩ := Option.map_eq_some_iff.mp h
  simp only [Prod.mk.injEq] at h
  obtain ⟨hkind, hsize, hnames, -⟩ := h
  have hlayout := ok_of_toOption hlayout
  have hfirst : ∀ other ∈ ([] : List (String × Int64)), ¬ SameBytes layout.size other.2 1 := by simp
  obtain ⟨encoding, -, hshown, -⟩ := endsWithName_iff hnode hkind hlayout (hsize ▸ by decide) hnames hfirst
  -- One lies below the half of the values, so its byte stands for it with a sign and without one.
  have hstands : ∀ isSigned, StoodFor isSigned 1 1 := by decide
  refine ⟨info, nodes, node, layout, ok_of_toOption hbuild, ok_of_toOption hnodes, hnode, hkind, hlayout, hsize,
    hnames, hshown ?_⟩
  rw [hsize]
  exact hstands _

theorem not_endsWithName_sampleEnumeration : ∃ info nodes node layout, build sampleEnumeration = .ok info ∧
    info.typeGraph 12 = .ok nodes ∧ nodes[0]? = some node ∧ node.kind = .enumeration ∧
      info.layoutOf nodes 0 = .ok layout ∧ layout.size = 1 ∧ layout.enumerators = [("LOW", 1), ("BIG", 200)] ∧
        ¬ SameBytes layout.size 1 200 ∧ ¬ layout.EndsWithName .decimal 200 "BIG" := by
  obtain ⟨info, hbuild, h⟩ := Option.bind_eq_some_iff.mp layout_sampleEnumeration
  obtain ⟨nodes, hnodes, h⟩ := Option.bind_eq_some_iff.mp h
  obtain ⟨node, hnode, h⟩ := Option.bind_eq_some_iff.mp h
  obtain ⟨layout, hlayout, h⟩ := Option.map_eq_some_iff.mp h
  simp only [Prod.mk.injEq] at h
  obtain ⟨hkind, hsize, hnames, hvalue⟩ := h
  have hother : ¬ SameBytes layout.size 1 200 := by
    rw [hsize]
    decide
  refine ⟨info, nodes, node, layout, ok_of_toOption hbuild, ok_of_toOption hnodes, hnode, hkind,
    ok_of_toOption hlayout, hsize, hnames, hother, ?_⟩
  rintro ⟨front, hfront⟩
  have htext : "-56" = front ++ "(" ++ "BIG" ++ ")" := Option.some_inj.mp (hvalue.symm.trans hfront)
  have hbracket : ')' ∈ "-56".toList := by
    rw [htext]
    simp
  exact absurd hbracket (by decide)

end DebugInfo

end FirmwareDebug
