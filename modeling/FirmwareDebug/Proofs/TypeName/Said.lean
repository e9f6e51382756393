import FirmwareDebug.Proofs.TypeName.CType

/-!
# What names say

A pointer is bracketed by a look at the node that it refers to, and a qualifier is put in front unless that
node is a pointer. So the sign of a pointer to a qualified array ends up beside the element's, and the
qualifier of anything but a pointer beside the base. `said` is the type that the name says. A plain type is
one whose qualifiers stand where names can say them: its name says it.
-/

namespace FirmwareDebug

namespace CType

/-- Change what is left of a type without the arrays and functions around it. -/
def onTarget (f : CType → CType) : CType → CType
  | .array count type => .array count (type.onTarget f)
  | .function parameters result => .function parameters (result.onTarget f)
  | type => f type

/-- Qualify the base that a type is made of. -/
def qualifyBase (q : Qualifier) : CType → CType
  | .base name => .qualified q (.base name)
  | .qualified r type =>
    if type.isPointer then .qualified r (type.qualifyBase q) else .qualified q (.qualified r type)
  | .pointer type => .pointer (type.qualifyBase q)
  | .array count type => .array count (type.qualifyBase q)
  | .function parameters result => .function parameters (result.qualifyBase q)

/-- Whether a type is a base or qualifies something else than a pointer. -/
def isChain : CType → Bool
  | .base _ => true
  | .qualified _ type => !type.isPointer
  | _ => false

theorem isPointer_of_isChain {type : CType} (h : type.isChain) : type.isPointer = false := by
  cases type <;> first | rfl | cases h

theorem binds_of_isChain {type : CType} (h : type.isChain) : type.binds = false := by
  cases type <;> first | rfl | cases h

theorem qualifyBase_of_isChain {type : CType} (h : type.isChain) (q : Qualifier) :
    type.qualifyBase q = .qualified q type := by
  cases type with
  | base name => rfl
  | qualified r type => exact if_neg (by simpa [isChain] using h)
  | _ => cases h

end CType

mutual

/-- The type that the name of a type says. -/
def CType.said : CType → CType
  | .base name => .base name
  | .qualified q type => if type.isPointer then type.said.onTarget (.qualified q) else type.said.qualifyBase q
  | .pointer type => if type.binds then .pointer type.said else type.said.onTarget .pointer
  | .array count type => .array count type.said
  | .function parameters result => .function parameters.said result.said

def Parameters.said : Parameters → Parameters
  | .one type => .one type.said
  | .more type rest => .more type.said rest.said

end

mutual

/-- Qualifiers stand at bases, and once at most at pointers. -/
inductive CType.Plain : CType → Prop
  | base (name : BaseName) : CType.Plain (.base name)
  | qualified (q : Qualifier) {type : CType} (hchain : type.isChain) (h : CType.Plain type) :
      CType.Plain (.qualified q type)
  | qualifiedPointer (q : Qualifier) {type : CType} (h : CType.Plain type) :
      CType.Plain (.qualified q (.pointer type))
  | pointer {type : CType} (h : CType.Plain type) : CType.Plain (.pointer type)
  | array (count : UInt32) {type : CType} (h : CType.Plain type) : CType.Plain (.array count type)
  | function {parameters : Parameters} {result : CType} (hparameters : Parameters.Plain parameters)
      (hresult : CType.Plain result) : CType.Plain (.function parameters result)

inductive Parameters.Plain : Parameters → Prop
  | one {type : CType} (h : CType.Plain type) : Parameters.Plain (.one type)
  | more {type : CType} {rest : Parameters} (h : CType.Plain type) (hrest : Parameters.Plain rest) :
      Parameters.Plain (.more type rest)

end

namespace CType

variable {type : CType} {q : Qualifier}

/-! ## The name of what is said -/

theorem declarator_onTarget {f : CType → CType} (behindTarget : String)
    (hf : ∀ type : CType, type.binds = false → (f type).declarator =
      { type.declarator with before := type.declarator.before ++ behindTarget }) (type : CType) :
    (type.onTarget f).declarator =
      { type.declarator with before := type.declarator.before ++ behindTarget } := by
  induction type with
  | base name => exact hf _ rfl
  | qualified q type ih => exact hf _ rfl
  | pointer type ih => exact hf _ rfl
  | array count type ih => rw [onTarget, declarator, ih, declarator]
  | function parameters result ih => rw [onTarget, declarator, ih, declarator]

theorem declarator_pointer (h : type.binds = false) : (CType.pointer type).declarator =
    { type.declarator with before := type.declarator.before ++ " *" } := by
  simp [declarator, h, Declarator.pointer, String.append_assoc]

theorem declarator_qualified_pointer (q : Qualifier) (type : CType) : (CType.qualified q (.pointer type)).declarator =
    { (CType.pointer type).declarator with before := (CType.pointer type).declarator.before ++ (" " ++ q.word) } := by
  rw [declarator, Declarator.qualified, String.append_assoc]
  rfl

theorem declarator_qualified (h : type.isPointer = false) : (CType.qualified q type).declarator =
    { type.declarator with before := q.word ++ " " ++ type.declarator.before } := by
  rw [declarator, h]
  rfl

theorem shape_qualifyBase (q : Qualifier) (type : CType) :
    (type.qualifyBase q).isPointer = type.isPointer ∧ (type.qualifyBase q).binds = type.binds := by
  cases type with
  | qualified r type =>
    rw [qualifyBase]
    split <;> exact ⟨rfl, rfl⟩
  | _ => exact ⟨rfl, rfl⟩

theorem declarator_qualifyBase (q : Qualifier) (type : CType) : (type.qualifyBase q).declarator =
    { type.declarator with before := q.word ++ " " ++ type.declarator.before } := by
  induction type with
  | base name => exact declarator_qualified rfl
  | qualified r type ih =>
    rw [qualifyBase]
    split
    case isTrue hpointer =>
      rw [declarator, (shape_qualifyBase q type).1, ih, declarator, hpointer]
      simp [Declarator.qualified, String.append_assoc]
    case isFalse => exact declarator_qualified rfl
  | pointer type ih =>
    rw [qualifyBase, declarator, (shape_qualifyBase q type).2, ih, declarator, Declarator.pointer,
      Declarator.pointer]
    split <;> simp [String.append_assoc]
  | array count type ih => rw [qualifyBase, declarator, ih, declarator]
  | function parameters result ih => rw [qualifyBase, declarator, ih, declarator]

theorem onTarget_pointer (f : CType → CType) (type : CType) :
    (type.onTarget .pointer).onTarget f = type.onTarget fun type => f (.pointer type) := by
  induction type with
  | base name => rfl
  | qualified q type ih => rfl
  | pointer type ih => rfl
  | array count type ih => rw [onTarget, onTarget, ih, onTarget]
  | function parameters result ih => rw [onTarget, onTarget, ih, onTarget]

theorem declarator_onTarget_qualified (q : Qualifier) (h : type.isPointer) :
    (type.said.onTarget (.qualified q)).declarator =
      { type.said.declarator with before := type.said.declarator.before ++ (" " ++ q.word) } := by
  cases type with
  | pointer type =>
    rw [said]
    split
    case isTrue => exact declarator_qualified_pointer q type.said
    case isFalse =>
      -- the sign of the pointer may stand beside the element of an array, and the qualifier follows it there
      rw [onTarget_pointer, declarator_onTarget " *" (fun _ => declarator_pointer),
        declarator_onTarget (" *" ++ (" " ++ q.word)) fun type htype => ?_]
      · simp [String.append_assoc]
      · rw [declarator_qualified_pointer, declarator_pointer htype]
        simp [String.append_assoc]
  | _ => cases h

theorem binds_said_of_binds (h : type.binds) : type.said.binds := by
  cases type <;> first | rfl | cases h

end CType

mutual

theorem CType.declarator_said : ∀ type : CType, type.said.declarator = type.declarator
  | .base _ => rfl
  | .qualified q type => by
    rw [CType.said]
    split
    case isTrue hpointer =>
      rw [CType.declarator_onTarget_qualified q hpointer, CType.declarator_said type, CType.declarator, hpointer]
      simp [Declarator.qualified, String.append_assoc]
    case isFalse hother =>
      rw [CType.declarator_qualifyBase, CType.declarator_said type,
        CType.declarator_qualified (eq_false_of_ne_true hother)]
  | .pointer type => by
    rw [CType.said]
    split
    case isTrue hbinds =>
      rw [CType.declarator, CType.binds_said_of_binds hbinds, CType.declarator_said type, CType.declarator, hbinds]
    case isFalse hother =>
      rw [CType.declarator_onTarget " *" (fun _ => CType.declarator_pointer), CType.declarator_said type,
        CType.declarator_pointer (eq_false_of_ne_true hother)]
  | .array count type => by rw [CType.said, CType.declarator, CType.declarator_said type, CType.declarator]
  | .function parameters result => by
    rw [CType.said, CType.declarator, CType.declarator_said result, Parameters.texts_said parameters,
      CType.declarator]

theorem Parameters.texts_said : ∀ parameters : Parameters, parameters.said.texts = parameters.texts
  | .one type => by rw [Parameters.said, Parameters.texts, CType.declarator_said type, Parameters.texts]
  | .more type rest => by
    rw [Parameters.said, Parameters.texts, CType.declarator_said type, Parameters.texts_said rest, Parameters.texts]

end

/-! ## Plain types -/

namespace CType

variable {type : CType} {q : Qualifier}

theorem Plain.onTarget {f : CType → CType} (hf : ∀ type : CType, type.Plain → type.binds = false → (f type).Plain)
    (h : type.Plain) : (type.onTarget f).Plain := by
  induction type with
  | base name => exact hf _ h rfl
  | qualified q type ih => exact hf _ h rfl
  | pointer type ih => exact hf _ h rfl
  | array count type ih =>
    cases h with
    | array _ h => exact .array count (ih h)
  | function parameters result ih =>
    cases h with
    | function hparameters hresult => exact .function hparameters (ih hresult)

theorem Plain.qualifyBase (q : Qualifier) : ∀ {type : CType}, type.Plain → (type.qualifyBase q).Plain
  | _, .base name => .qualified q rfl (.base name)
  | .qualified r type, .qualified _ hchain h => by
    have htype : (CType.qualified r type).isChain := by simp [isChain, isPointer_of_isChain hchain]
    rw [qualifyBase_of_isChain htype]
    exact .qualified q htype (.qualified r hchain h)
  | _, .qualifiedPointer r h => .qualifiedPointer r (Plain.qualifyBase q h)
  | _, .pointer h => .pointer (Plain.qualifyBase q h)
  | _, .array count h => .array count (Plain.qualifyBase q h)
  | _, .function hparameters hresult => .function hparameters (Plain.qualifyBase q hresult)

end CType

mutual

theorem CType.plain_said : ∀ type : CType, type.said.Plain
  | .base name => .base name
  | .qualified q (.pointer type) => by
    have h := CType.plain_said type
    show ((CType.pointer type).said.onTarget (.qualified q)).Plain
    rw [CType.said]
    split
    case isTrue => exact .qualifiedPointer q h
    case isFalse =>
      rw [CType.onTarget_pointer]
      exact h.onTarget fun _ h _ => .qualifiedPointer q h
  | .qualified q (.base name) => .qualified q rfl (.base name)
  | .qualified q (.qualified r type) => (CType.plain_said (.qualified r type)).qualifyBase q
  | .qualified q (.array count type) => (CType.plain_said (.array count type)).qualifyBase q
  | .qualified q (.function parameters result) => (CType.plain_said (.function parameters result)).qualifyBase q
  | .pointer type => by
    rw [CType.said]
    split
    case isTrue => exact .pointer (CType.plain_said type)
    case isFalse => exact (CType.plain_said type).onTarget fun _ h _ => .pointer h
  | .array count type => .array count (CType.plain_said type)
  | .function parameters result => .function (Parameters.plain_said parameters) (CType.plain_said result)

theorem Parameters.plain_said : ∀ parameters : Parameters, parameters.said.Plain
  | .one type => .one (CType.plain_said type)
  | .more type rest => .more (CType.plain_said type) (Parameters.plain_said rest)

end

theorem CType.onTarget_eq {f : CType → CType} {type : CType} (h : type.binds = false) : type.onTarget f = f type := by
  cases type <;> first | rfl | cases h

theorem CType.said_pointer {type : CType} (h : type.said = type) : (CType.pointer type).said = .pointer type := by
  rw [CType.said, h]
  split
  case isTrue => rfl
  case isFalse hbinds => exact CType.onTarget_eq (eq_false_of_ne_true hbinds)

mutual

theorem CType.Plain.said_eq : ∀ {type : CType}, type.Plain → type.said = type
  | _, .base _ => rfl
  | _, .qualified q hchain h => by
    rw [CType.said, if_neg (ne_true_of_eq_false (CType.isPointer_of_isChain hchain)), CType.Plain.said_eq h,
      CType.qualifyBase_of_isChain hchain]
  | .qualified q (.pointer type), .qualifiedPointer _ h => by
    have hpointer : (CType.pointer type).isPointer := rfl
    rw [CType.said, if_pos hpointer, CType.said_pointer (CType.Plain.said_eq h)]
    rfl
  | _, .pointer h => CType.said_pointer (CType.Plain.said_eq h)
  | _, .array count h => by rw [CType.said, CType.Plain.said_eq h]
  | _, .function hparameters hresult => by
    rw [CType.said, CType.Plain.said_eq hresult, Parameters.Plain.said_eq hparameters]

theorem Parameters.Plain.said_eq : ∀ {parameters : Parameters}, parameters.Plain → parameters.said = parameters
  | _, .one h => by rw [Parameters.said, CType.Plain.said_eq h]
  | _, .more h hrest => by rw [Parameters.said, CType.Plain.said_eq h, Parameters.Plain.said_eq hrest]

end

end FirmwareDebug
