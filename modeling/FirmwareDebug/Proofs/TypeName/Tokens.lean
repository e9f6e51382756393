import FirmwareDebug.Proofs.Number
import FirmwareDebug.Proofs.TypeName.CType

/-!
# The words and signs of names

Blanks in the name of a type only keep words apart. Without them the name is a list of words and signs: those
before the place of a declared name and those behind it.
-/

namespace FirmwareDebug

/-- A part of the name of a type. -/
inductive Token
  | word (characters : List Char)
  | sign (c : Char)
  deriving DecidableEq, Repr

/-- The words and signs of a text, behind characters of a word that has begun. -/
def lexFrom (begun : List Char) : List Char → List Token
  | [] => if begun = [] then [] else [.word begun]
  | c :: rest =>
    if isWordCharacter c then lexFrom (begun ++ [c]) rest
    else (if begun = [] then [] else [.word begun]) ++ (if c = ' ' then [] else [.sign c]) ++ lexFrom [] rest

def lex (text : List Char) : List Token := lexFrom [] text

/-- No word goes on in the text. -/
def Apart (text : List Char) : Prop := ∀ c ∈ text.head?, isWordCharacter c = false

/-- A text has some words and signs, whatever stands behind it as long as it does not go on with a word. -/
def Lexes (text : String) (tokens : List Token) : Prop :=
  ∀ rest, Apart rest → lex (text.toList ++ rest) = tokens ++ lex rest

theorem apart_nil : Apart [] := fun _ h => by cases h

theorem apart_cons {c : Char} (h : isWordCharacter c = false) (rest : List Char) : Apart (c :: rest) := by
  rintro _ ⟨⟩
  exact h

theorem apart_text {s : String} {c : Char} {more : List Char} (hs : s.toList = c :: more)
    (h : isWordCharacter c = false) (text : String) : Apart (s ++ text).toList := by
  rw [String.toList_append, hs]
  exact apart_cons h _

theorem Apart.append {front rest : List Char} (h : Apart front) (hrest : Apart rest) : Apart (front ++ rest) := by
  cases front with
  | nil => exact hrest
  | cons c front => exact fun d hd => h d hd

namespace Lexes

variable {text front behind : String} {tokens frontTokens behindTokens : List Token}

theorem eq (h : Lexes text tokens) : lex text.toList = tokens := by
  have hend := h [] apart_nil
  rwa [List.append_nil, show lex [] = [] from rfl, List.append_nil] at hend

theorem empty : Lexes "" [] := fun _ _ => rfl

theorem append (hfront : Lexes front frontTokens) (hbehind : Lexes behind behindTokens)
    (hapart : Apart behind.toList) : Lexes (front ++ behind) (frontTokens ++ behindTokens) := by
  intro rest hrest
  rw [String.toList_append, List.append_assoc, hfront _ (hapart.append hrest), hbehind rest hrest, List.append_assoc]

theorem blank (h : Lexes text tokens) : Lexes (" " ++ text) tokens := by
  intro rest hrest
  rw [String.toList_append, List.append_assoc, ← h rest hrest]
  rfl

theorem comma (h : Lexes text tokens) : Lexes (", " ++ text) (.sign ',' :: tokens) := by
  intro rest hrest
  rw [String.toList_append, List.append_assoc, List.cons_append, ← h rest hrest]
  rfl

theorem sign {s : String} {c : Char} (hs : s.toList = [c]) (hword : isWordCharacter c = false) (hblank : c ≠ ' ')
    (h : Lexes text tokens) : Lexes (s ++ text) (.sign c :: tokens) := by
  intro rest hrest
  rw [String.toList_append, List.append_assoc, hs, List.cons_append, List.cons_append, ← h rest hrest]
  simp [lex, lexFrom, hword, hblank]

theorem word (hne : text ≠ "") (h : ∀ c ∈ text.toList, isWordCharacter c) : Lexes text [.word text.toList] := by
  have hgo (word : List Char) (hword : ∀ c ∈ word, isWordCharacter c) (begun rest : List Char)
      (hbegun : begun ++ word ≠ []) (hrest : Apart rest) :
      lexFrom begun (word ++ rest) = .word (begun ++ word) :: lex rest := by
    induction word generalizing begun with
    | nil =>
      rw [List.append_nil] at hbegun
      cases rest with
      | nil => simp [lexFrom, lex, hbegun]
      | cons c rest => simp [lexFrom, lex, hbegun, hrest c rfl]
    | cons c word ih =>
      rw [List.cons_append, lexFrom, if_pos (hword c List.mem_cons_self),
        ih (fun d hd => hword d (List.mem_cons_of_mem c hd)) _ (by simp), List.append_assoc, List.singleton_append]
  intro rest hrest
  exact hgo text.toList h [] rest (by simpa using hne) hrest

end Lexes

def Qualifier.token (q : Qualifier) : Token := .word q.word.toList

namespace CType

/-- The words and signs of a type before a declared name. -/
def front : CType → List Token
  | .base name => [.word name.val.toList]
  | .qualified q type => if type.isPointer then type.front ++ [q.token] else q.token :: type.front
  | .pointer type => type.front ++ if type.binds then [.sign '(', .sign '*'] else [.sign '*']
  | .array _ type => type.front
  | .function _ result => result.front

end CType

mutual

/-- The words and signs of a type behind a declared name. -/
def CType.back : CType → List Token
  | .base _ => []
  | .qualified _ type => type.back
  | .pointer type => if type.binds then .sign ')' :: type.back else type.back
  | .array count type => .sign '[' :: .word (toString count.toNat).toList :: .sign ']' :: type.back
  | .function parameters result => .sign '(' :: (parameters.tokens ++ .sign ')' :: result.back)

def Parameters.tokens : Parameters → List Token
  | .one type => type.front ++ type.back
  | .more type rest => type.front ++ type.back ++ .sign ',' :: rest.tokens

end

def CType.tokens (type : CType) : List Token := type.front ++ type.back

theorem Qualifier.lexes (q : Qualifier) : Lexes q.word [q.token] := by
  cases q <;> exact Lexes.word (by decide) (List.all_eq_true.mp (by decide))

theorem lexes_count (n : Nat) : Lexes (toString n) [.word (toString n).toList] := by
  have hword : ∀ c ∈ numeralCharacters, isWordCharacter c := List.all_eq_true.mp (by decide)
  exact Lexes.word (by simp) fun c hc => hword c ((isNumeral_nat n).2 c hc)

namespace CType

theorem apart_behind (type : CType) : Apart type.declarator.behind.toList := by
  induction type with
  | base name => exact apart_nil
  | qualified q type ih => exact ih
  | pointer type ih =>
    rw [declarator, Declarator.pointer]
    split
    case isTrue => exact apart_text rfl (by decide) _
    case isFalse => exact ih
  | array count type ih =>
    rw [declarator, ArrayDimension.text, String.append_assoc, String.append_assoc]
    exact apart_text rfl (by decide) _
  | function parameters result ih =>
    rw [declarator, String.append_assoc, String.append_assoc]
    exact apart_text rfl (by decide) _

theorem lexes_before (type : CType) : Lexes type.declarator.before type.front := by
  induction type with
  | base name => exact Lexes.word name.property.1 name.property.2.1
  | qualified q type ih =>
    rw [declarator, Declarator.qualified, front]
    dsimp only
    split
    case isTrue =>
      rw [String.append_assoc]
      exact ih.append q.lexes.blank (apart_text rfl (by decide) _)
    case isFalse =>
      rw [String.append_assoc]
      exact q.lexes.append ih.blank (apart_text rfl (by decide) _)
  | pointer type ih =>
    have hstar : Lexes "*" [.sign '*'] := fun _ _ => rfl
    have hopen : Lexes " (" [.sign '('] := fun _ _ => rfl
    rw [declarator, Declarator.pointer, front]
    split
    case isTrue =>
      have hbracket := hopen.append hstar (apart_cons (by decide) [])
      rw [String.append_assoc]
      exact ih.append hbracket (apart_text (s := " (") rfl (by decide) "*")
    case isFalse =>
      rw [String.append_assoc]
      exact ih.append hstar.blank (apart_text (s := " ") rfl (by decide) "*")
  | array count type ih => exact ih
  | function parameters result ih => exact ih

theorem lexes_text {type : CType} (hback : Lexes type.declarator.behind type.back) :
    Lexes type.declarator.text type.tokens := by
  rw [Declarator.text, Declarator.around, String.empty_append]
  split
  case isTrue hempty =>
    rw [hempty] at hback
    have hnone : type.back = [] := hback.eq.symm
    rw [tokens, hnone, List.append_nil]
    exact lexes_before type
  case isFalse =>
    split
    case h_4 =>
      rw [String.append_assoc]
      exact (lexes_before type).append hback.blank (apart_text rfl (by decide) _)
    all_goals exact (lexes_before type).append hback (apart_behind type)

end CType

mutual

theorem CType.lexes_behind : ∀ type : CType, Lexes type.declarator.behind type.back
  | .base name => Lexes.empty
  | .qualified q type => CType.lexes_behind type
  | .pointer type => by
    rw [CType.declarator, Declarator.pointer, CType.back]
    split
    case isTrue => exact (CType.lexes_behind type).sign (s := ")") rfl (by decide) (by decide)
    case isFalse => exact CType.lexes_behind type
  | .array count type => by
    rw [CType.declarator, ArrayDimension.text, String.append_assoc, String.append_assoc, CType.back]
    have hclose := (CType.lexes_behind type).sign (s := "]") rfl (by decide) (by decide)
    have hcount := (lexes_count count.toNat).append hclose (apart_text (s := "]") rfl (by decide) _)
    exact hcount.sign (s := "[") rfl (by decide) (by decide)
  | .function parameters result => by
    rw [CType.declarator, String.append_assoc, String.append_assoc, CType.back]
    have hclose := (CType.lexes_behind result).sign (s := ")") rfl (by decide) (by decide)
    have htexts := (Parameters.lexes_texts parameters).append hclose (apart_text (s := ")") rfl (by decide) _)
    exact htexts.sign (s := "(") rfl (by decide) (by decide)

theorem Parameters.lexes_texts : ∀ parameters : Parameters,
    Lexes (", ".intercalate parameters.texts) parameters.tokens
  | .one type => by
    rw [Parameters.texts, String.intercalate_singleton, Parameters.tokens]
    exact CType.lexes_text (CType.lexes_behind type)
  | .more type rest => by
    have hne : rest.texts ≠ [] := by cases rest <;> exact List.cons_ne_nil _ _
    have hrest := (Parameters.lexes_texts rest).comma
    rw [Parameters.texts, String.intercalate_cons_of_ne_nil hne, String.append_assoc, Parameters.tokens]
    exact (CType.lexes_text (CType.lexes_behind type)).append hrest (apart_text (s := ", ") rfl (by decide) _)

end

/-- The text of a type has the words and signs of the type. -/
theorem CType.lex_text (type : CType) : lex type.declarator.text.toList = type.tokens :=
  (CType.lexes_text (CType.lexes_behind type)).eq

end FirmwareDebug
