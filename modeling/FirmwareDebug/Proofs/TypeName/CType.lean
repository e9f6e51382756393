import FirmwareDebug.Declarator

/-!
# C types

The types that are built from named base types by qualifiers, pointers, arrays and functions, and their
declarators, as they are put together for the nodes of a type graph.
-/

namespace FirmwareDebug

/-- The qualifiers of types. -/
inductive Qualifier
  | constant | volatile
  deriving DecidableEq, Repr

namespace Qualifier

def word : Qualifier → String
  | constant => "const"
  | volatile => "volatile"

def ofWord? (word : String) : Option Qualifier :=
  if word = "const" then some constant else if word = "volatile" then some volatile else none

theorem word_of_ofWord? {word : String} {q : Qualifier} (h : ofWord? word = some q) : q.word = word := by
  unfold ofWord? at h
  split at h
  case isTrue hword =>
    cases h
    exact hword.symm
  case isFalse =>
    split at h
    case isTrue hword =>
      cases h
      exact hword.symm
    case isFalse => cases h

end Qualifier

/-- Whether a character is part of a word: all but the blank and the signs of declarators are. -/
def isWordCharacter (c : Char) : Bool := c ∉ [' ', '*', '(', ')', '[', ']', ',']

/-- Whether a base type may have a name: a word that is not a qualifier. -/
def IsBaseName (name : String) : Prop :=
  name ≠ "" ∧ (∀ c ∈ name.toList, isWordCharacter c) ∧ ∀ q : Qualifier, name ≠ q.word

instance (name : String) : Decidable (IsBaseName name) :=
  decidable_of_iff (name ≠ "" ∧ name.toList.all isWordCharacter ∧ name ≠ "const" ∧ name ≠ "volatile") (by
    rw [List.all_eq_true]
    refine and_congr_right fun _ => and_congr_right fun _ => ⟨fun h q => ?_, fun h => ⟨h .constant, h .volatile⟩⟩
    cases q
    · exact h.1
    · exact h.2)

theorem isBaseName_of_identifier {name : String} (hne : name ≠ "") (hconst : name ≠ "const")
    (hvolatile : name ≠ "volatile") (h : ∀ c ∈ name.toList, c.isAlphanum ∨ c = '_') : IsBaseName name := by
  refine ⟨hne, fun c hc => ?_, fun q => ?_⟩
  · refine decide_eq_true fun hsign => ?_
    simp only [List.mem_cons, List.not_mem_nil, or_false] at hsign
    rcases hsign with rfl | rfl | rfl | rfl | rfl | rfl | rfl <;> exact absurd (h _ hc) (by decide)
  · cases q
    · exact hconst
    · exact hvolatile

abbrev BaseName := { name : String // IsBaseName name }

mutual

/-- A type of C. An array of several dimensions is an array of arrays. -/
inductive CType
  | base (name : BaseName)
  | qualified (qualifier : Qualifier) (type : CType)
  | pointer (type : CType)
  | array (count : UInt32) (type : CType)
  | function (parameters : Parameters) (result : CType)
  deriving DecidableEq, Repr

/-- The types of the parameters of a function, which are one at least. -/
inductive Parameters
  | one (type : CType)
  | more (type : CType) (rest : Parameters)
  deriving DecidableEq, Repr

end

/-- Induction over a type that says nothing of the types of parameters. -/
@[elab_as_elim, induction_eliminator]
theorem CType.induction {motive : CType → Prop} (base : ∀ name, motive (.base name))
    (qualified : ∀ q type, motive type → motive (.qualified q type))
    (pointer : ∀ type, motive type → motive (.pointer type))
    (array : ∀ count type, motive type → motive (.array count type))
    (function : ∀ parameters result, motive result → motive (.function parameters result)) (type : CType) :
    motive type :=
  @CType.rec motive (fun _ => True) base qualified pointer array
    (fun parameters result _ => function parameters result) (fun _ _ => trivial) (fun _ _ _ _ => trivial) type

namespace CType

/-- The type of what has none. -/
def void : CType := .base ⟨"void", by decide⟩

def isPointer : CType → Bool
  | .pointer _ => true
  | _ => false

def isArray : CType → Bool
  | .array _ _ => true
  | _ => false

def isFunction : CType → Bool
  | .function _ _ => true
  | _ => false

/-- Whether the sign of a pointer to the type is bracketed. -/
def binds (type : CType) : Bool := type.isArray || type.isFunction

end CType

mutual

/-- The declarator of a type, as it is put together for a node. -/
def CType.declarator : CType → Declarator
  | .base name => ⟨name, ""⟩
  | .qualified q type => type.declarator.qualified q.word type.isPointer
  | .pointer type => type.declarator.pointer "*" type.binds
  | .array count type =>
    { type.declarator with behind := (ArrayDimension.counted count).text ++ type.declarator.behind }
  | .function parameters result =>
    { result.declarator with behind := "(" ++ ", ".intercalate parameters.texts ++ ")" ++ result.declarator.behind }

def Parameters.texts : Parameters → List String
  | .one type => [type.declarator.text]
  | .more type rest => type.declarator.text :: rest.texts

end

/-- Parameters of some types, unless there are none. -/
def Parameters.ofList? : List CType → Option Parameters
  | [] => none
  | type :: types =>
    match Parameters.ofList? types with
    | none => some (.one type)
    | some rest => some (.more type rest)

theorem Parameters.texts_ofList? {types : List CType} {parameters : Parameters}
    (h : Parameters.ofList? types = some parameters) :
    parameters.texts = types.map fun type => type.declarator.text := by
  induction types generalizing parameters with
  | nil => cases h
  | cons type types ih =>
    rw [ofList?] at h
    split at h
    case h_1 hnone =>
      cases h
      cases types with
      | nil => rfl
      | cons next rest =>
        rw [ofList?] at hnone
        split at hnone <;> cases hnone
    case h_2 rest hrest =>
      cases h
      rw [texts, ih hrest, List.map_cons]

end FirmwareDebug
