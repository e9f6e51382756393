import FirmwareDebug.Proofs.Layout
import FirmwareDebug.Proofs.Number
import Mathlib.Algebra.BigOperators.Group.List.Basic

/-!
# Which bytes a part of a value is shown from

The bytes of a value are handed down from part to part: a member gets those from its place on, an element
those from its number on, and each only as many as its own size. What a path of parts adds up to is the place
of its last part in the bytes of the whole. Whatever reaches behind the end of a part around it is missing.
-/

namespace FirmwareDebug

namespace PartialBytes

variable {bytes other : PartialBytes} {ends : List Nat} {size : Nat}

/-- The byte at a place, if it is there. -/
def at? (bytes : PartialBytes) (i : Nat) : Option UInt8 := bytes[i]?.join

/-- What is left of the bytes in front of all of some places. -/
def before (ends : List Nat) (bytes : PartialBytes) : PartialBytes :=
  ends.foldr (fun last bytes => bytes.take last) bytes

@[simp]
theorem at?_drop (offset i : Nat) : at? (bytes.drop offset) i = bytes.at? (offset + i) := by
  rw [at?, List.getElem?_drop, at?]

@[simp]
theorem at?_take (length i : Nat) : at? (bytes.take length) i = if i < length then bytes.at? i else none := by
  rw [at?, List.getElem?_take]
  split <;> rfl

theorem at?_slice (offset i : Nat) (h : i < size) : (bytes.slice offset size).at? i = bytes.at? (offset + i) := by
  rw [slice, at?_take, if_pos h, at?_drop]

theorem at?_before_eq_none_iff {i : Nat} :
    (bytes.before ends).at? i = none ↔ bytes.at? i = none ∨ ∃ last ∈ ends, last ≤ i := by
  induction ends with
  | nil => simp [before]
  | cons last ends ih =>
    show at? ((bytes.before ends).take last) i = none ↔ _
    rw [at?_take]
    split
    case isTrue hlt =>
      have hnot : ¬ last ≤ i := Nat.not_le.mpr hlt
      simp [ih, hnot]
    case isFalse hle =>
      simp [Nat.not_lt.mp hle]

theorem before_congr {offset : Nat}
    (h : ∀ i < size, other.at? (offset + i) = bytes.at? (offset + i)) :
    ∀ i < size, (other.before ends).at? (offset + i) = (bytes.before ends).at? (offset + i) := by
  intro i hi
  induction ends with
  | nil => exact h i hi
  | cons last ends ih =>
    show at? ((other.before ends).take last) _ = at? ((bytes.before ends).take last) _
    rw [at?_take, at?_take, ih]

theorem slice_slice {start length offset : Nat} (h : offset + size ≤ length) :
    (bytes.slice start length).slice offset size = bytes.slice (start + offset) size := by
  rw [slice, slice, slice, List.drop_take, List.drop_drop, List.take_take, Nat.min_eq_left (by omega)]

theorem slice_drop (start offset : Nat) : slice ((bytes.before ends).drop start) offset size =
    (bytes.before ((start + offset + size) :: ends)).drop (start + offset) := by
  show _ = ((bytes.before ends).take (start + offset + size)).drop (start + offset)
  rw [slice, List.drop_drop, List.drop_take, Nat.add_sub_cancel_left]

theorem before_slice {offset : Nat} (h : ∀ last ∈ ends, offset + size ≤ last) :
    (bytes.before ends).slice offset size = bytes.slice offset size := by
  induction ends with
  | nil => rfl
  | cons last ends ih =>
    obtain ⟨hlast, hends⟩ := List.forall_mem_cons.mp h
    show slice ((bytes.before ends).take last) offset size = _
    rw [← ih hends, slice, List.drop_take, List.take_take, Nat.min_eq_left (by omega), slice]

theorem first?_succ (bytes : PartialBytes) (size : Nat) :
    bytes.first? (size + 1) = (bytes.at? 0).bind fun b => (first? (bytes.drop 1) size).map (b :: ·) := by
  rcases bytes with _ | ⟨_ | b, rest⟩ <;> simp [first?, at?]

theorem first?_congr (h : ∀ i < size, other.at? i = bytes.at? i) : other.first? size = bytes.first? size := by
  induction size generalizing bytes other with
  | zero => simp [first?]
  | succ size ih =>
    have hrest : first? (other.drop 1) size = first? (bytes.drop 1) size := ih fun i hi => by
      rw [at?_drop, at?_drop, Nat.add_comm]
      exact h (i + 1) (Nat.succ_lt_succ hi)
    rw [first?_succ, first?_succ, h 0 (Nat.succ_pos size), hrest]

theorem first?_eq_none_iff : bytes.first? size = none ↔ ∃ i < size, bytes.at? i = none := by
  induction size generalizing bytes with
  | zero => simp [first?]
  | succ size ih =>
    have hrest : first? (bytes.drop 1) size = none ↔ ∃ i < size, bytes.at? (i + 1) = none := by
      simp only [ih, at?_drop, Nat.add_comm 1]
    rw [first?_succ, Nat.exists_lt_succ_left, ← hrest]
    cases bytes.at? 0 <;> simp

end PartialBytes

/-! ## Texts of numbers -/

section

variable {base : NumericBase} {bytes other : PartialBytes} {size : UInt32}

theorem IsNumeral.ne_unavailable {text : String} (h : IsNumeral text) (behind : String) :
    text ++ behind ≠ unavailableText := by
  intro heq
  obtain ⟨c, rest, hfirst⟩ := List.exists_cons_of_ne_nil h.1
  have htext := congrArg (fun text => text.toList.head?) heq
  simp only [String.toList_append, hfirst] at htext
  have hc : c = '?' := by simpa [unavailableText] using htext
  have hmark : '?' ∉ numeralCharacters := by decide
  exact hmark (hc ▸ h.2 c (by simp [hfirst]))

theorem plainText_ne_unavailable {shape : Shape} (h : shape.encoding ≠ some .float) (raw : UInt64) (value : Int64) :
    shape.plainText base raw value ≠ unavailableText := by
  have hinteger := isNumeral_integerText base raw value shape.isSigned
  rw [Shape.plainText, if_neg h]
  split_ifs
  · decide
  · decide
  · rw [String.append_assoc, String.append_assoc]
    exact hinteger.ne_unavailable _
  · simpa using hinteger.ne_unavailable ""

theorem bitsText_ne_unavailable {shape : Shape} (h : shape.encoding ≠ some .float) (raw : UInt64) :
    shape.bitsText base raw ≠ unavailableText := by
  have hinteger (raw : UInt64) (value : Int64) := isNumeral_integerText base raw value shape.isSigned
  rw [Shape.bitsText]
  dsimp only
  split
  case isTrue => exact plainText_ne_unavailable h _ _
  case isFalse =>
    split
    · rw [String.append_assoc, String.append_assoc]
      exact (hinteger _ _).ne_unavailable _
    · simpa using (hinteger _ _).ne_unavailable ""

theorem readNumber_congr (h : ∀ i < size.toNat, other.at? i = bytes.at? i) :
    readNumber other size = readNumber bytes size := by
  rw [readNumber, PartialBytes.first?_congr h, readNumber]

theorem readNumber_cases (hsize : IsNumberSize size) (bytes : PartialBytes) :
    (∃ raw, readNumber bytes size = .ok raw ∧ ∀ i < size.toNat, bytes.at? i ≠ none) ∨
      readNumber bytes size = .error unavailableText ∧ ∃ i < size.toNat, bytes.at? i = none := by
  have hsizes : size = 1 ∨ size = 2 ∨ size = 4 ∨ size = 8 := hsize
  rw [readNumber, if_pos hsizes, ← PartialBytes.first?_eq_none_iff]
  cases hfirst : bytes.first? size.toNat with
  | none => exact .inr ⟨rfl, rfl⟩
  | some read =>
    refine .inl ⟨_, rfl, fun i hi hnone => ?_⟩
    rw [PartialBytes.first?_eq_none_iff.mpr ⟨i, hi, hnone⟩] at hfirst
    cases hfirst

end

namespace ValueTree

/-- The part at the end of a path of numbers of parts. -/
def part? : (path : List Nat) → ValueTree → Option ValueTree
  | [], tree => some tree
  | i :: path, tree => tree.parts[i]?.bind (part? path)

/-- The same tree by another name. -/
def named (name : String) (tree : ValueTree) : ValueTree := { tree with name }

@[simp]
theorem named_self (tree : ValueTree) : tree.named tree.name = tree := by
  cases tree
  rfl

@[simp]
theorem part?_append (front back : List Nat) (tree : ValueTree) :
    tree.part? (front ++ back) = (tree.part? front).bind (part? back) := by
  induction front generalizing tree with
  | nil => rfl
  | cons i front ih =>
    rw [List.cons_append, part?, part?, Option.bind_assoc]
    exact Option.bind_congr fun part _ => ih part

end ValueTree

namespace Layout

/-! ## Places of parts -/

/-- The number of an element in the order of the bytes, by its numbers in all dimensions. -/
def elementNumber : (indices : List Nat) → (counts : List UInt32) → Nat
  | i :: indices, _ :: counts => i * (counts.map UInt32.toNat).prod + elementNumber indices counts
  | _, _ => 0

/-- Numbers of an element that is there and is not left out. -/
def IsShown (indices : List Nat) (counts : List UInt32) : Prop :=
  List.Forall₂ (fun i count => i < count.toNat ∧ i < maxElements) indices counts

/--
The part of a layout at the end of a path: where it lies in the bytes of the whole, and the ends of the members
and elements that it lies in, itself among them.
-/
inductive PartAt (whole : Layout) : (path : List Nat) → (offset : Nat) → (ends : List Nat) → Layout → Prop
  | whole : PartAt whole [] 0 [] whole
  | member {path ends : List Nat} {offset k : Nat} {part member : Layout} (h : PartAt whole path offset ends part)
      (hsingle : part.dimensions = []) (hdirect : part.isPointer = false) (hmember : part.members[k]? = some member) :
      PartAt whole (path ++ [k]) (offset + member.memberOffset.toNat)
        ((offset + member.memberOffset.toNat + member.size.toNat) :: ends) member
  | element {path ends indices : List Nat} {offset : Nat} {counts : List UInt32} {part element : Layout}
      (h : PartAt whole path offset ends part) (hcounts : counts ≠ [])
      (hdimensions : part.dimensions = counts.map .counted) (helement : part.members.head? = some element)
      (hshown : IsShown indices counts) :
      PartAt whole (path ++ indices) (offset + elementNumber indices counts * element.size.toNat)
        ((offset + elementNumber indices counts * element.size.toNat + element.size.toNat) :: ends) element

/-- Nothing is known at run time only or lies in itself, and arrays with known dimensions have the size of all
their elements. -/
inductive Sized : Layout → Prop
  | intro {layout : Layout} (hfixed : layout.isVariableLength = false) (hentered : layout.isRecursive = false)
      (harray : ∀ counts, counts ≠ [] → layout.dimensions = counts.map .counted → ∃ element,
        layout.members = [element] ∧
          layout.size.toNat = (counts.map UInt32.toNat).prod * element.size.toNat)
      (hmembers : ∀ member ∈ layout.members, Sized member) : Sized layout

theorem Sized.of_single {layout : Layout} (hfixed : layout.isVariableLength = false)
    (hentered : layout.isRecursive = false) (hsingle : layout.dimensions = [])
    (hmembers : ∀ member ∈ layout.members, Sized member) : layout.Sized := by
  refine .intro hfixed hentered (fun counts hcounts hdimensions => ?_) hmembers
  rw [hsingle] at hdimensions
  exact absurd (List.map_eq_nil_iff.mp hdimensions.symm) hcounts

theorem Sized.of_counted {layout element : Layout} {counts : List UInt32} (hfixed : layout.isVariableLength = false)
    (hentered : layout.isRecursive = false) (hdimensions : layout.dimensions = counts.map .counted)
    (helement : layout.members = [element])
    (hsize : layout.size.toNat = (counts.map UInt32.toNat).prod * element.size.toNat) (h : element.Sized) :
    layout.Sized := by
  refine .intro hfixed hentered (fun others _ hothers => ⟨element, helement, ?_⟩) ?_
  · have hcounts : others = counts :=
      List.map_injective_iff.mpr (fun _ _ => ArrayDimension.counted.inj) (hothers.symm.trans hdimensions)
    rw [hcounts, hsize]
  · rw [helement]
    exact List.forall_mem_singleton.mpr h

/-- A part with a text of its own. -/
structure IsLeaf (layout : Layout) : Prop where
  single : layout.dimensions = []
  undivided : layout.isPointer = true ∨ layout.members = []

/-- A part of which an integer is shown: no array and no floating-point number, of a size that numbers have. -/
structure IsInteger (layout : Layout) : Prop where
  isSize : IsNumberSize layout.size
  notFloat : layout.isPointer = true ∨ layout.encoding ≠ some .float

/-- The text that is shown at the end of a path. -/
def textAt (whole : Layout) (base : NumericBase) (bytes : PartialBytes) (path : List Nat) : Option String :=
  ((whole.tree base bytes).part? path).bind ValueTree.value

/-! ## Elements of arrays -/

variable {base : NumericBase} {bytes other : PartialBytes} {whole layout leaf : Layout} {path ends : List Nat}
  {offset : Nat}

theorem elementNumber_lt {indices : List Nat} {counts : List UInt32} (h : IsShown indices counts) :
    elementNumber indices counts < (counts.map UInt32.toNat).prod := by
  induction h with
  | nil => simp [elementNumber]
  | @cons i count indices counts hindex hrest ih =>
    rw [elementNumber, List.map_cons, List.prod_cons]
    calc i * (counts.map UInt32.toNat).prod + elementNumber indices counts
        < (i + 1) * (counts.map UInt32.toNat).prod := by rw [Nat.add_mul, Nat.one_mul]; omega
      _ ≤ count.toNat * (counts.map UInt32.toNat).prod := Nat.mul_le_mul_right _ hindex.1

theorem parts_arrayTree {element : PartialBytes → ValueTree} {elementSize : UInt32} {elementType : String}
    {count size stride : UInt32} {rest : List ArrayDimension} {i : Nat} (hi : i < min count.toNat maxElements)
    (hstride : stride = if rest.isEmpty then elementSize else size / count) (typeText : String) (bytes : PartialBytes) :
    (arrayTree element elementSize elementType (.counted count :: rest) typeText size bytes).parts[i]? =
      some ((arrayTree element elementSize elementType rest elementType stride
        (bytes.slice (i * stride.toNat) stride.toNat)).named ("[" ++ toString i ++ "]")) := by
  subst hstride
  simp only [arrayTree]
  rw [List.getElem?_append_left (by simpa using hi), List.getElem?_map, List.getElem?_range hi]
  rfl

theorem part?_arrayTree (element : PartialBytes → ValueTree) {elementSize : UInt32} (elementType : String)
    {count size : UInt32} {counts : List UInt32} {i : Nat} {indices : List Nat}
    (hshown : IsShown (i :: indices) (count :: counts))
    (hsize : size.toNat = ((count :: counts).map UInt32.toNat).prod * elementSize.toNat) (typeText : String)
    (bytes : PartialBytes) : ∃ name,
      (arrayTree element elementSize elementType ((count :: counts).map .counted) typeText size bytes).part?
          (i :: indices) =
        some ((element (bytes.slice (elementNumber (i :: indices) (count :: counts) * elementSize.toNat)
          elementSize.toNat)).named name) := by
  induction counts generalizing i indices count size typeText bytes with
  | nil =>
    cases hshown with
    | cons hindex hrest =>
      cases hrest
      refine ⟨"[" ++ toString i ++ "]", ?_⟩
      rw [List.map_cons, ValueTree.part?, parts_arrayTree (Nat.lt_min.mpr hindex) rfl]
      simp [ValueTree.part?, arrayTree, elementNumber]
  | cons next counts ih =>
    cases hshown with
    | cons hindex hrest =>
      cases indices with
      | nil => cases hrest
      | cons j indices =>
        -- A row is as large as all its elements, so it cuts none of them off.
        have hstride : (size / count).toNat = ((next :: counts).map UInt32.toNat).prod * elementSize.toNat := by
          rw [UInt32.toNat_div, hsize, List.map_cons, List.prod_cons, Nat.mul_assoc]
          exact Nat.mul_div_cancel_left _ (by omega)
        obtain ⟨name, hname⟩ := ih hrest hstride elementType
          (bytes.slice (i * (size / count).toNat) (size / count).toNat)
        refine ⟨name, ?_⟩
        rw [List.map_cons, ValueTree.part?, parts_arrayTree (Nat.lt_min.mpr hindex) rfl, Option.bind_some]
        refine hname.trans ?_
        have hroom : elementNumber (j :: indices) (next :: counts) * elementSize.toNat + elementSize.toNat ≤
            (size / count).toNat := by
          rw [hstride, ← Nat.succ_mul]
          exact Nat.mul_le_mul_right _ (elementNumber_lt hrest)
        have hplace : i * (size / count).toNat + elementNumber (j :: indices) (next :: counts) * elementSize.toNat =
            elementNumber (i :: j :: indices) (count :: next :: counts) * elementSize.toNat := by
          rw [hstride, ← Nat.mul_assoc, ← Nat.add_mul]
          rfl
        rw [PartialBytes.slice_slice hroom, hplace]

/-! ## Parts and their bytes -/

theorem tree_array {shape : Shape} {element : Layout} {members : List Layout}
    (hfixed : shape.isVariableLength = false) (hentered : shape.isRecursive = false)
    (hdimensions : shape.dimensions ≠ []) : tree base ⟨shape, element :: members⟩ bytes =
      (arrayTree (element.tree base) element.size element.typeText shape.dimensions shape.typeText shape.size
        bytes).named shape.name := by
  have helement : firstTree base (element :: members) = element.tree base := funext fun _ => rfl
  simp [tree, hfixed, hentered, hdimensions, helement, ValueTree.named]

/-- The text of a part that is not divided further. -/
def ownText (base : NumericBase) (layout : Layout) (bytes : PartialBytes) : String :=
  if layout.isPointer then layout.pointerText bytes else layout.leafText base bytes

theorem Sized.value_of_isLeaf (hsized : leaf.Sized) (h : leaf.IsLeaf) (base : NumericBase) (bytes : PartialBytes) :
    (leaf.tree base bytes).value = some (leaf.ownText base bytes) := by
  obtain ⟨shape, members⟩ := leaf
  obtain ⟨hfixed, hentered, -, -⟩ := hsized
  obtain ⟨hsingle, hundivided⟩ := h
  dsimp only at hfixed hentered hsingle hundivided
  cases hpointer : shape.isPointer with
  | true => simp [tree, ownText, hfixed, hentered, hsingle, hpointer]
  | false =>
    have hnone : members = [] := by simpa [hpointer] using hundivided
    simp [tree, ownText, hfixed, hentered, hsingle, hpointer, hnone]

/-- A part is shown from the bytes at its place, without those behind an end around it. -/
theorem part?_of_partAt {part : Layout} (hsized : whole.Sized) (h : whole.PartAt path offset ends part)
    (base : NumericBase) (bytes : PartialBytes) : part.Sized ∧ ∃ name,
      (whole.tree base bytes).part? path = some ((part.tree base ((bytes.before ends).drop offset)).named name) := by
  induction h with
  | whole => exact ⟨hsized, (whole.tree base bytes).name, congrArg some (ValueTree.named_self _).symm⟩
  | @member path ends offset k part member h hsingle hdirect hmember ih =>
    obtain ⟨⟨hfixed, hentered, -, hmembers⟩, name, hpart⟩ := ih
    obtain ⟨shape, members⟩ := part
    have hsome := List.mem_of_getElem? hmember
    refine ⟨hmembers member hsome, (member.tree base ((bytes.before
      ((offset + member.memberOffset.toNat + member.size.toNat) :: ends)).drop
        (offset + member.memberOffset.toNat))).name, ?_⟩
    have hparts : (tree base ⟨shape, members⟩ ((bytes.before ends).drop offset)).parts = _ :=
      parts_of_members hfixed hentered hsingle hdirect (List.ne_nil_of_mem hsome)
    rw [ValueTree.part?_append, hpart, Option.bind_some, ValueTree.part?, ValueTree.named, hparts,
      getElem?_memberTrees, hmember, Option.map_some, PartialBytes.slice_drop, ValueTree.named_self]
    rfl
  | @element path ends indices offset counts part element h hcounts hdimensions helement hshown ih =>
    obtain ⟨⟨hfixed, hentered, harray, hmembers⟩, name, hpart⟩ := ih
    obtain ⟨_, hsingleton, hsize⟩ := harray counts hcounts hdimensions
    obtain ⟨shape, members⟩ := part
    dsimp only at hsingleton helement hdimensions
    subst hsingleton
    cases helement
    refine ⟨hmembers element (List.mem_singleton_self _), ?_⟩
    cases hshown with
    | nil => exact absurd rfl hcounts
    | @cons i count indices counts hindex hrest =>
      obtain ⟨last, hlast⟩ := part?_arrayTree (element.tree base) element.typeText (.cons hindex hrest) hsize
        shape.typeText ((bytes.before ends).drop offset)
      refine ⟨last, ?_⟩
      have hne : shape.dimensions ≠ [] := by simp [hdimensions]
      rw [ValueTree.part?_append, hpart, Option.bind_some, tree_array hfixed hentered hne, hdimensions,
        ← PartialBytes.slice_drop, ← hlast]
      rfl

theorem textAt_of_partAt (hsized : whole.Sized) (h : whole.PartAt path offset ends leaf) (hleaf : leaf.IsLeaf)
    (base : NumericBase) (bytes : PartialBytes) :
    whole.textAt base bytes path = some (leaf.ownText base ((bytes.before ends).drop offset)) := by
  obtain ⟨hsizedLeaf, name, hpart⟩ := part?_of_partAt hsized h base bytes
  rw [textAt, hpart, Option.bind_some]
  exact hsizedLeaf.value_of_isLeaf hleaf base _

/-! ## The text of a leaf -/

theorem ownText_congr (h : ∀ i < leaf.size.toNat, other.at? i = bytes.at? i) :
    leaf.ownText base other = leaf.ownText base bytes := by
  have hnumber := readNumber_congr h
  simp only [ownText, Shape.pointerText, Shape.leafText, Shape.scalarText, hnumber]

theorem ownText_slice (start : Nat) (bytes : PartialBytes) :
    leaf.ownText base (bytes.slice start leaf.size.toNat) = leaf.ownText base (bytes.drop start) :=
  ownText_congr fun i hi => by rw [PartialBytes.at?_slice _ _ hi, PartialBytes.at?_drop]

theorem ownText_eq_unavailable_iff (h : leaf.IsInteger) :
    leaf.ownText base bytes = unavailableText ↔ ∃ i < leaf.size.toNat, bytes.at? i = none := by
  have hknown : ¬ (leaf.size = 0 ∧ leaf.encoding.isNone = true ∧ leaf.enumerators.isEmpty = true) := fun hnothing =>
    absurd h.isSize.pos (by rw [hnothing.1]; decide)
  rcases readNumber_cases h.isSize bytes with ⟨raw, hread, hall⟩ | ⟨hread, hmissing⟩
  · -- Bytes that are all there are shown as a number, and no number has the text of missing ones.
    refine iff_of_false ?_ fun ⟨i, hi, hnone⟩ => hall i hi hnone
    rw [ownText]
    split
    case isTrue =>
      rw [Shape.pointerText, hread]
      intro heq
      have hfirst := congrArg (fun text => text.toList.head?) heq
      simp [unavailableText] at hfirst
    case isFalse hdirect =>
      rw [Shape.leafText, if_neg hknown, Shape.scalarText, hread]
      exact bitsText_ne_unavailable (h.notFloat.resolve_left hdirect) raw
  · refine iff_of_true ?_ hmissing
    rw [ownText, Shape.pointerText, Shape.leafText, if_neg hknown, Shape.scalarText, hread]
    exact ite_self _

/--
A leaf shows what its layout shows of its own bytes: those at the place to which its path adds up, less what lies
behind the end of a part around it. Other bytes do not matter, and an integer is unavailable just in case one
of its own bytes is missing or lies behind such an end.
-/
theorem textAt_ownBytes (hsized : whole.Sized) (h : whole.PartAt path offset ends leaf) (hleaf : leaf.IsLeaf)
    (base : NumericBase) (bytes : PartialBytes) : ∃ text, whole.textAt base bytes path = some text ∧
      (leaf.tree base ((bytes.before ends).slice offset leaf.size.toNat)).value = some text ∧
      ((∀ last ∈ ends, offset + leaf.size.toNat ≤ last) →
        (leaf.tree base (bytes.slice offset leaf.size.toNat)).value = some text) ∧
      (∀ other : PartialBytes, (∀ i < leaf.size.toNat, other.at? (offset + i) = bytes.at? (offset + i)) →
        whole.textAt base other path = some text) ∧
      (leaf.IsInteger → (text = unavailableText ↔
        ∃ i < leaf.size.toNat, bytes.at? (offset + i) = none ∨ ∃ last ∈ ends, last ≤ offset + i)) := by
  have hsizedLeaf := (part?_of_partAt hsized h base bytes).1
  have hown : (leaf.tree base ((bytes.before ends).slice offset leaf.size.toNat)).value =
      some (leaf.ownText base ((bytes.before ends).drop offset)) := by
    rw [hsizedLeaf.value_of_isLeaf hleaf, ownText_slice]
  refine ⟨_, textAt_of_partAt hsized h hleaf base bytes, hown, fun hinside => ?_, fun other hother => ?_,
    fun hinteger => ?_⟩
  · rw [← PartialBytes.before_slice hinside]
    exact hown
  · rw [textAt_of_partAt hsized h hleaf base other]
    refine congrArg some (ownText_congr fun i hi => ?_)
    rw [PartialBytes.at?_drop, PartialBytes.at?_drop]
    exact PartialBytes.before_congr hother i hi
  · simp only [ownText_eq_unavailable_iff hinteger, PartialBytes.at?_drop, PartialBytes.at?_before_eq_none_iff]

/-- A number of two bytes. -/
def sampleCell : Layout := { size := 2, encoding := some .signed }

/-- Two rows of two numbers. -/
def sampleRows : Layout where
  size := 8
  memberOffset := 4
  dimensions := [.counted 2, .counted 2]
  members := [sampleCell]

/-- A number, and two rows of numbers behind it. -/
def sampleTable : Layout where
  size := 12
  members := [{ size := 4, encoding := some .unsigned }, sampleRows]

/-- The bytes of the first number in the second row alone. -/
def sampleBytes : PartialBytes := List.replicate 8 none ++ [some 0xfe, some 0xff]

theorem textAt_sampleTable : sampleTable.textAt .decimal sampleBytes [1, 1, 0] = some "-2" ∧
    sampleTable.textAt .decimal (sampleBytes.take 9) [1, 1, 0] = some unavailableText := by
  have hcounts : sampleRows.dimensions = [2, 2].map .counted := rfl
  have hrows : sampleRows.Sized :=
    .of_counted rfl rfl hcounts rfl (by decide) (.of_single rfl rfl rfl (List.forall_mem_nil _))
  have hsized : sampleTable.Sized := .of_single rfl rfl rfl (List.forall_mem_cons.mpr
    ⟨.of_single rfl rfl rfl (List.forall_mem_nil _), List.forall_mem_singleton.mpr hrows⟩)
  have hshown : IsShown [1, 0] [2, 2] := .cons (by decide) (.cons (by decide) .nil)
  have htable : sampleTable.PartAt [1] 4 [12] sampleRows := @PartAt.member _ _ _ _ 1 _ sampleRows .whole rfl rfl rfl
  have hcell : sampleTable.PartAt [1, 1, 0] 8 [10, 12] sampleCell :=
    .element htable (List.cons_ne_nil _ _) hcounts rfl hshown
  have hleaf : sampleCell.IsLeaf := ⟨rfl, .inr rfl⟩
  constructor
  · obtain ⟨text, htext, hown, -⟩ := textAt_ownBytes hsized hcell hleaf .decimal sampleBytes
    have hvalue : (sampleCell.tree .decimal ((sampleBytes.before [10, 12]).slice 8 2)).value = some "-2" := by
      decide +kernel
    rw [htext, ← hown]
    exact hvalue
  · obtain ⟨text, htext, -, -, -, hmissing⟩ :=
      textAt_ownBytes hsized hcell hleaf .decimal (sampleBytes.take 9)
    rw [htext, (hmissing ⟨by decide, .inr (by decide)⟩).mpr ⟨1, by decide, .inl rfl⟩]

/-- Whether every leaf shows what its layout shows of the bytes at its place. -/
def ShowsOwnBytes (whole : Layout) : Prop :=
  ∀ path offset ends leaf, whole.PartAt path offset ends leaf → leaf.IsLeaf → ∀ base bytes,
    whole.textAt base bytes path = (leaf.tree base (bytes.slice offset leaf.size.toNat)).value

/-- A number of four bytes. -/
def sampleNumber : Layout := { size := 4, encoding := some .signed }

/-- A number of four bytes in one byte of a structure. -/
def sampleCut : Layout where
  size := 4
  members := [{ size := 1, members := [sampleNumber] }]

/-- The number is cut off behind the byte that it lies in, so it is not shown though all its bytes are there. -/
theorem not_showsOwnBytes_sampleCut : sampleCut.Sized ∧ ¬ sampleCut.ShowsOwnBytes := by
  constructor
  · refine .of_single rfl rfl rfl (List.forall_mem_singleton.mpr ?_)
    exact .of_single rfl rfl rfl (List.forall_mem_singleton.mpr (.of_single rfl rfl rfl (List.forall_mem_nil _)))
  · intro hshows
    have hnumber : sampleCut.PartAt [0, 0] 0 [4, 1] sampleNumber :=
      @PartAt.member _ _ _ _ 0 _ sampleNumber (@PartAt.member _ _ _ _ 0 _ { size := 1, members := [sampleNumber] }
        .whole rfl rfl rfl) rfl rfl rfl
    have heq := hshows _ _ _ _ hnumber ⟨rfl, .inr rfl⟩ .decimal [some 5, some 0, some 0, some 0]
    have hcut : sampleCut.textAt .decimal [some 5, some 0, some 0, some 0] [0, 0] = some "??" := by decide +kernel
    have hwhole : (sampleNumber.tree .decimal
        (PartialBytes.slice [some 5, some 0, some 0, some 0] 0 4)).value = some "5" := by decide +kernel
    exact absurd (hcut.symm.trans (heq.trans hwhole)) (by decide)

end Layout

end FirmwareDebug
