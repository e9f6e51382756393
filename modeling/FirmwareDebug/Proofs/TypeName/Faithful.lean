import FirmwareDebug.Proofs.TypeName.Named
import FirmwareDebug.Proofs.TypeName.Unique

/-!
# What is known of a type by its name

Two type graphs have the same name if and only if their names say the same type. For plain types that is the
type itself. The name of a pointer to a qualified array says an array of pointers, so it is a name of both.
-/

namespace FirmwareDebug

/-! ## The same type -/

namespace CType

/--
Qualify a type. The elements of an array are qualified and not the array; the order of qualifiers does not
matter, nor how often one is given.
-/
def qualify (q : Qualifier) : CType → CType
  | .array count type => .array count (type.qualify q)
  | .qualified r type =>
    match q, r with
    | .constant, .volatile => .qualified .constant (.qualified .volatile type)
    | .volatile, .constant => .qualified .constant (type.qualify .volatile)
    | _, _ => .qualified r type
  | type => .qualified q type

end CType

mutual

def CType.normal : CType → CType
  | .base name => .base name
  | .qualified q type => type.normal.qualify q
  | .pointer type => .pointer type.normal
  | .array count type => .array count type.normal
  | .function parameters result => .function parameters.normal result.normal

def Parameters.normal : Parameters → Parameters
  | .one type => .one type.normal
  | .more type rest => .more type.normal rest.normal

end

namespace CType

def Same (type other : CType) : Prop := type.normal = other.normal

instance (type other : CType) : Decidable (type.Same other) := inferInstanceAs (Decidable (_ = _))

theorem same_array (q : Qualifier) (count : UInt32) (type : CType) :
    (qualified q (array count type)).Same (array count (qualified q type)) := rfl

theorem qualify_twice (q : Qualifier) : ∀ type : CType, (type.qualify q).qualify q = type.qualify q
  | .base _ | .pointer _ | .function _ _ => by cases q <;> rfl
  | .array count type => by rw [qualify, qualify, qualify_twice q type]
  | .qualified r type => by
    cases q <;> cases r <;> simp only [qualify]
    rw [qualify_twice .volatile type]

theorem qualify_swapped : ∀ type : CType,
    (type.qualify .volatile).qualify .constant = (type.qualify .constant).qualify .volatile
  | .base _ | .pointer _ | .function _ _ => rfl
  | .array count type => by rw [qualify, qualify, qualify_swapped type, qualify, qualify]
  | .qualified r type => by cases r <;> rfl

theorem same_twice (q : Qualifier) (type : CType) : (qualified q (qualified q type)).Same (qualified q type) :=
  qualify_twice q type.normal

theorem same_swapped (q r : Qualifier) (type : CType) :
    (qualified q (qualified r type)).Same (qualified r (qualified q type)) := by
  cases q <;> cases r
  case constant.volatile => exact qualify_swapped type.normal
  case volatile.constant => exact (qualify_swapped type.normal).symm
  all_goals rfl

end CType

/-! ## Pointers to qualified arrays and functions -/

namespace CType

variable (q : Qualifier) (count : UInt32) (parameters : Parameters) (type : CType)

theorem said_pointer_qualified (h : type.isPointer = false) :
    (pointer (qualified q type)).said = (type.said.qualifyBase q).onTarget .pointer := by
  have hqualified : (qualified q type).said = type.said.qualifyBase q := by rw [said, if_neg (ne_true_of_eq_false h)]
  rw [said, hqualified]
  rfl

theorem text_pointer_qualified_array (h : type.isPointer = false) :
    (pointer (qualified q (array count type))).declarator.text =
      (array count (pointer (qualified q type))).declarator.text := by
  refine (text_eq_iff _ _).mpr ?_
  rw [said_pointer_qualified q (array count type) rfl, said, said, said_pointer_qualified q type h]
  rfl

theorem text_pointer_qualified_function (h : type.isPointer = false) :
    (pointer (qualified q (function parameters type))).declarator.text =
      (function parameters (pointer (qualified q type))).declarator.text := by
  refine (text_eq_iff _ _).mpr ?_
  rw [said_pointer_qualified q (function parameters type) rfl, said, said, said_pointer_qualified q type h]
  rfl

theorem not_same_pointer_array (other : CType) : ¬ (pointer type).Same (array count other) := by
  intro h
  simp [Same, normal] at h

end CType

namespace DebugInfo

variable {info info' : DebugInfo} {nodes nodes' : TypeGraph} {budget budget' : Nat} {index index' : Option Nat}
  {type type' : CType}

/--
Graphs that stand for C types have names, and the same name if and only if the names say the same type. If the
name of the first graph says its type, then the other one stands for the same type just in case the name says
its type, too. Plain types are known by their names.
-/
theorem typeName_eq_iff (h : info.typeFor nodes budget index = some type)
    (h' : info'.typeFor nodes' budget' index' = some type') :
    (∃ name, info.typeName nodes index = .ok name) ∧
    (info.typeName nodes index = info'.typeName nodes' index' ↔ type.said = type'.said) ∧
    (info.typeName nodes index = info'.typeName nodes' index' → type.said.Same type →
      (type.Same type' ↔ type'.said.Same type')) ∧
    (type.Plain → type'.Plain → info.typeName nodes index = info'.typeName nodes' index' → type = type') := by
  have hname : info.typeName nodes index = info'.typeName nodes' index' ↔ type.said = type'.said := by
    rw [typeName_of_typeFor h, typeName_of_typeFor h', Except.ok.injEq]
    exact CType.text_eq_iff type type'
  refine ⟨⟨_, typeName_of_typeFor h⟩, hname, fun hsame hsays => ?_, fun hplain hplain' hsame => ?_⟩
  · unfold CType.Same at hsays ⊢
    rw [← hname.mp hsame, hsays]
  · rw [← hplain.said_eq, ← hplain'.said_eq]
    exact hname.mp hsame

/-- A pointer to an array of four constant integers, and an array of four pointers to such integers. -/
def constantArrays : Sections where
  info := #[50, 0, 0, 0, 4, 0, 0, 0, 0, 0, 4, 1, 2, 0x69, 0x6e, 0x74, 0, 4, 12, 0, 0, 0, 5, 4, 0, 3, 17, 0, 0, 0,
    6, 25, 0, 0, 0, 3, 12, 0, 0, 0, 6, 35, 0, 0, 0, 4, 40, 0, 0, 0, 5, 4, 0, 0]
  abbreviations := #[1, 0x11, 1, 0, 0, 2, 0x24, 0, 3, 8, 0, 0, 3, 0x26, 0, 0x49, 0x13, 0, 0, 4, 1, 1, 0x49, 0x13,
    0, 0, 5, 0x21, 0, 0x37, 0x0b, 0, 0, 6, 0x0f, 0, 0x49, 0x13, 0, 0, 0]

def integer : CType := .base ⟨"int", by decide⟩

theorem types_constantArrays : (build constantArrays).toOption.any fun info =>
    (info.typeGraph 30).toOption.any (fun nodes => info.typeFor nodes 4 (some 0) =
        some (.pointer (.qualified .constant (.array 4 integer)))) ∧
      (info.typeGraph 45).toOption.any fun nodes => info.typeFor nodes 4 (some 0) =
        some (.array 4 (.pointer (.qualified .constant integer))) := by
  decide +kernel

theorem ran_constantArrays : ∃ info nodes nodes', build constantArrays = .ok info ∧
    info.typeGraph 30 = .ok nodes ∧ info.typeGraph 45 = .ok nodes' ∧
    info.typeFor nodes 4 (some 0) = some (.pointer (.qualified .constant (.array 4 integer))) ∧
    info.typeFor nodes' 4 (some 0) = some (.array 4 (.pointer (.qualified .constant integer))) := by
  obtain ⟨info, hinfo, hfacts⟩ := (Option.any_eq_true _ _).mp types_constantArrays
  obtain ⟨hpointer, harray⟩ := of_decide_eq_true hfacts
  obtain ⟨nodes, hnodes, hpointer⟩ := (Option.any_eq_true _ _).mp hpointer
  obtain ⟨nodes', hnodes', harray⟩ := (Option.any_eq_true _ _).mp harray
  exact ⟨info, nodes, nodes', ok_of_toOption hinfo, ok_of_toOption hnodes, ok_of_toOption hnodes',
    of_decide_eq_true hpointer, of_decide_eq_true harray⟩

theorem typeName_eq_constantArrays : ∃ info nodes nodes', build constantArrays = .ok info ∧
    info.typeGraph 30 = .ok nodes ∧ info.typeGraph 45 = .ok nodes' ∧
    (info.typeName nodes (some 0) = info.typeName nodes' (some 0) ↔
      (CType.pointer (.qualified .constant (.array 4 integer))).said =
        (CType.array 4 (.pointer (.qualified .constant integer))).said) := by
  obtain ⟨info, nodes, nodes', hinfo, hnodes, hnodes', hpointer, harray⟩ := ran_constantArrays
  exact ⟨info, nodes, nodes', hinfo, hnodes, hnodes', (typeName_eq_iff hpointer harray).2.1⟩

/-- A pointer to an array and an array of pointers, with one name. -/
theorem typeName_not_faithful : ∃ info nodes nodes' type type', build constantArrays = .ok info ∧
    info.typeGraph 30 = .ok nodes ∧ info.typeGraph 45 = .ok nodes' ∧
    info.typeFor nodes 4 (some 0) = some type ∧ info.typeFor nodes' 4 (some 0) = some type' ∧
    info.typeName nodes (some 0) = info.typeName nodes' (some 0) ∧ ¬ type.Same type' := by
  obtain ⟨info, nodes, nodes', hinfo, hnodes, hnodes', hpointer, harray⟩ := ran_constantArrays
  refine ⟨info, nodes, nodes', _, _, hinfo, hnodes, hnodes', hpointer, harray, ?_, ?_⟩
  · rw [typeName_of_typeFor hpointer, typeName_of_typeFor harray,
      CType.text_pointer_qualified_array .constant 4 integer rfl]
  · exact CType.not_same_pointer_array 4 _ _

end DebugInfo

end FirmwareDebug
