import FirmwareDebug.Proofs.TypeName.Said
import FirmwareDebug.Proofs.TypeName.Tokens

/-!
# Names are read in one way

The sign of a pointer follows a bracket where one is opened before the name, and a word follows one that opens
parameters. So it is seen where the part behind the name begins, and from the last sign before the name and
the first one behind it what kind of type it is, from the outside inwards.
-/

namespace FirmwareDebug

/-- Words and signs as they stand before a name. -/
inductive Opens : List Token → Prop
  | nil : Opens []
  | word (characters : List Char) {rest : List Token} (h : Opens rest) : Opens (.word characters :: rest)
  | star {rest : List Token} (h : Opens rest) : Opens (.sign '*' :: rest)
  | bracket {rest : List Token} (h : Opens rest) : Opens (.sign '(' :: .sign '*' :: rest)

/-- Words and signs as they stand behind a type. -/
inductive Ends : List Token → Prop
  | nil : Ends []
  | close (rest : List Token) : Ends (.sign ')' :: rest)
  | comma (rest : List Token) : Ends (.sign ',' :: rest)

/-- Words and signs as they stand behind a name. -/
inductive Closes : List Token → Prop
  | ends {rest : List Token} (h : Ends rest) : Closes rest
  | dimension (rest : List Token) : Closes (.sign '[' :: rest)
  | call (characters : List Char) (rest : List Token) : Closes (.sign '(' :: .word characters :: rest)

theorem Opens.append {front rest : List Token} (h : Opens front) (hrest : Opens rest) : Opens (front ++ rest) := by
  induction h with
  | nil => exact hrest
  | word characters h ih => exact .word characters ih
  | star h ih => exact .star ih
  | bracket h ih => exact .bracket ih

theorem not_opens_bracket (front : List Token) : ¬ Opens (front ++ [.sign '(']) := by
  intro h
  generalize hwhole : front ++ [.sign '('] = whole at h
  induction h generalizing front with
  | nil => simp at hwhole
  | word characters h ih =>
    cases front with
    | nil => simp at hwhole
    | cons t front => exact ih front (List.cons.inj hwhole).2
  | star h ih =>
    cases front with
    | nil => simp at hwhole
    | cons t front => exact ih front (List.cons.inj hwhole).2
  | bracket h ih =>
    match front with
    | [] => simp at hwhole
    | [t] => simp at hwhole
    | t :: u :: front => exact ih front (List.cons.inj (List.cons.inj hwhole).2).2

theorem Opens.not_closes {front rest behind : List Token} (h : Opens front) (hne : front ≠ [])
    (hcloses : Closes behind) : front ++ rest ≠ behind := by
  rintro rfl
  cases h with
  | nil => exact hne rfl
  | word characters h => cases hcloses with | ends hends => cases hends
  | star h => cases hcloses with | ends hends => cases hends
  | bracket h => cases hcloses with | ends hends => cases hends

theorem Opens.split {front other behind behind' : List Token} (hfront : Opens front) (hother : Opens other)
    (hbehind : Closes behind) (hbehind' : Closes behind') (h : front ++ behind = other ++ behind') :
    front = other ∧ behind = behind' := by
  induction hfront generalizing other with
  | nil =>
    by_cases hne : other = []
    · subst hne
      exact ⟨rfl, h⟩
    · rw [List.nil_append] at h
      exact absurd h.symm (hother.not_closes hne hbehind)
  | word characters hrest ih =>
    cases hother with
    | nil => exact absurd h ((Opens.word characters hrest).not_closes (List.cons_ne_nil _ _) hbehind')
    | word characters' hother =>
      obtain ⟨hhead, htail⟩ := List.cons.inj h
      cases hhead
      obtain ⟨rfl, hsame⟩ := ih hother htail
      exact ⟨rfl, hsame⟩
    | star hother => cases (List.cons.inj h).1
    | bracket hother => cases (List.cons.inj h).1
  | star hrest ih =>
    cases hother with
    | nil => exact absurd h ((Opens.star hrest).not_closes (List.cons_ne_nil _ _) hbehind')
    | word characters' hother => cases (List.cons.inj h).1
    | star hother =>
      obtain ⟨rfl, hsame⟩ := ih hother (List.cons.inj h).2
      exact ⟨rfl, hsame⟩
    | bracket hother => cases (List.cons.inj h).1
  | bracket hrest ih =>
    cases hother with
    | nil => exact absurd h ((Opens.bracket hrest).not_closes (List.cons_ne_nil _ _) hbehind')
    | word characters' hother => cases (List.cons.inj h).1
    | star hother => cases (List.cons.inj h).1
    | bracket hother =>
      obtain ⟨rfl, hsame⟩ := ih hother (List.cons.inj (List.cons.inj h).2).2
      exact ⟨rfl, hsame⟩

namespace CType

/-! ## The parts before and behind a name -/

theorem opens_front (type : CType) : Opens type.front := by
  induction type with
  | base name => exact .word _ .nil
  | qualified q type ih =>
    rw [front]
    split
    case isTrue => exact ih.append (.word _ .nil)
    case isFalse => exact .word _ ih
  | pointer type ih =>
    rw [front]
    split
    case isTrue => exact ih.append (.bracket .nil)
    case isFalse => exact ih.append (.star .nil)
  | array count type ih => exact ih
  | function parameters result ih => exact ih

theorem front_word (type : CType) : ∃ characters rest, type.front = .word characters :: rest := by
  induction type with
  | base name => exact ⟨_, _, rfl⟩
  | qualified q type ih =>
    obtain ⟨characters, rest, hfront⟩ := ih
    rw [front]
    split
    case isTrue => exact ⟨characters, rest ++ [q.token], by rw [hfront, List.cons_append]⟩
    case isFalse => exact ⟨_, _, rfl⟩
  | pointer type ih =>
    obtain ⟨characters, rest, hfront⟩ := ih
    rw [front, hfront, List.cons_append]
    exact ⟨_, _, rfl⟩
  | array count type ih => exact ih
  | function parameters result ih => exact ih

end CType

theorem Parameters.tokens_word (parameters : Parameters) :
    ∃ characters rest, parameters.tokens = .word characters :: rest := by
  cases parameters with
  | one type =>
    obtain ⟨characters, rest, hfront⟩ := type.front_word
    exact ⟨characters, rest ++ type.back, by rw [tokens, hfront, List.cons_append]⟩
  | more type others =>
    obtain ⟨characters, rest, hfront⟩ := type.front_word
    rw [tokens, hfront]
    exact ⟨_, _, rfl⟩

namespace CType

theorem closes_back {rest : List Token} (hrest : Ends rest) (type : CType) : Closes (type.back ++ rest) := by
  induction type with
  | base name => exact .ends hrest
  | qualified q type ih => exact ih
  | pointer type ih =>
    rw [back]
    split
    case isTrue => exact .ends (.close _)
    case isFalse => exact ih
  | array count type ih => exact .dimension _
  | function parameters result ih =>
    obtain ⟨characters, more, htokens⟩ := parameters.tokens_word
    rw [back, htokens]
    exact .call _ _

theorem Plain.ends_back {rest : List Token} (hrest : Ends rest) :
    ∀ {type : CType}, type.Plain → type.binds = false → Ends (type.back ++ rest)
  | _, .base _, _ => hrest
  | _, .qualified _ hchain h, _ => (Plain.ends_back hrest h (binds_of_isChain hchain) :)
  | .qualified _ (.pointer type), .qualifiedPointer _ h, _ | .pointer type, .pointer h, _ => by
    show Ends ((CType.pointer type).back ++ rest)
    rw [back]
    split
    case isTrue => exact .close _
    case isFalse hbinds => exact Plain.ends_back hrest h (eq_false_of_ne_true hbinds)

/-! ## What kind of type it is -/

/-- The kinds of plain types. -/
inductive Form
  | chain | pointer | qualifiedPointer | array | function
  deriving DecidableEq

def form : CType → Form
  | .base _ => .chain
  | .qualified _ type => if type.isPointer then .qualifiedPointer else .chain
  | .pointer _ => .pointer
  | .array _ _ => .array
  | .function _ _ => .function

/-- The kind of a type by the last part before a name and the first one behind it. -/
def formOf (last next : Option Token) : Form :=
  if next = some (.sign '[') then .array
  else if next = some (.sign '(') then .function
  else if last = some (.sign '*') then .pointer
  else if last = some Qualifier.constant.token ∨ last = some Qualifier.volatile.token then .qualifiedPointer
  else .chain

theorem front_qualified_chain {type : CType} (q : Qualifier) (h : type.isChain) :
    (CType.qualified q type).front = q.token :: type.front :=
  if_neg (ne_true_of_eq_false (isPointer_of_isChain h))

theorem front_qualified_pointer (q : Qualifier) (type : CType) :
    (CType.qualified q (.pointer type)).front = (CType.pointer type).front ++ [q.token] := rfl

theorem form_eq_chain {type : CType} (h : type.isChain) : type.form = .chain := by
  cases type with
  | base name => rfl
  | qualified q type => exact if_neg (by simpa [isChain] using h)
  | _ => cases h

theorem form_qualified {type : CType} (q : Qualifier) (h : type.isChain) : (CType.qualified q type).form = .chain :=
  if_neg (ne_true_of_eq_false (isPointer_of_isChain h))

theorem Plain.last_chain : ∀ {type : CType}, type.Plain → type.isChain →
    ∃ name : BaseName, type.front.getLast? = some (.word name.val.toList)
  | _, .base name, _ => ⟨name, rfl⟩
  | .qualified q type, .qualified _ hchain h, _ => by
    obtain ⟨name, hname⟩ := Plain.last_chain h hchain
    obtain ⟨characters, rest, hword⟩ := type.front_word
    exact ⟨name, by rw [front_qualified_chain q hchain, ← hname, hword, List.getLast?_cons_cons]⟩

@[simp]
theorem last_front_pointer (type : CType) : (CType.pointer type).front.getLast? = some (.sign '*') := by
  rw [front]
  split <;> simp

theorem formOf_ends {rest : List Token} (h : Ends rest) (last : Option Token) : formOf last rest.head? =
    if last = some (.sign '*') then .pointer
    else if last = some Qualifier.constant.token ∨ last = some Qualifier.volatile.token then .qualifiedPointer
    else .chain := by
  cases h <;> simp [formOf]

theorem word_ne_token (name : BaseName) (q : Qualifier) : Token.word name.val.toList ≠ q.token := by
  intro h
  exact name.property.2.2 q (String.toList_inj.mp (Token.word.inj h))

theorem Plain.formOf_eq {type : CType} {rest : List Token} (h : type.Plain) (hrest : Ends rest) :
    formOf type.front.getLast? (type.back ++ rest).head? = type.form := by
  have hends := h.ends_back hrest
  -- the last word of a chain is the name of its base, which no qualifier has
  have hchain (hchain : type.isChain) : formOf type.front.getLast? (type.back ++ rest).head? = type.form := by
    obtain ⟨name, hname⟩ := h.last_chain hchain
    rw [formOf_ends (hends (binds_of_isChain hchain)), hname, form_eq_chain hchain]
    simp [word_ne_token]
  cases h with
  | base name => exact hchain rfl
  | qualified q hinner h => exact hchain (by simp [isChain, isPointer_of_isChain hinner])
  | @qualifiedPointer q type h =>
    rw [formOf_ends (hends rfl), front_qualified_pointer, List.getLast?_concat]
    cases q <;> simp [Qualifier.token, form, isPointer]
  | pointer h =>
    rw [formOf_ends (hends rfl), last_front_pointer, if_pos rfl]
    rfl
  | array count h => rfl
  | function hparameters hresult => rfl

/-! ## Reading a type -/

/-- The part behind a type says which of the types that begin alike it is, and where it ends. -/
def ReadsOnce (type : CType) : Prop :=
  ∀ (other : CType) (rest rest' : List Token), other.Plain → Ends rest → Ends rest' → type.front = other.front →
    type.back ++ rest = other.back ++ rest' → type = other ∧ rest = rest'

theorem Plain.form_eq {type other : CType} {rest rest' : List Token} (h : type.Plain) (hother : other.Plain)
    (hrest : Ends rest) (hrest' : Ends rest') (hfront : type.front = other.front)
    (hback : type.back ++ rest = other.back ++ rest') : type.form = other.form := by
  rw [← h.formOf_eq hrest, ← hother.formOf_eq hrest', hfront, hback]

theorem front_pointer_inj {type other : CType} (h : (CType.pointer type).front = (CType.pointer other).front) :
    type.binds = other.binds ∧ type.front = other.front := by
  -- with one star taken off, a bracket would be left open
  have hnot {type other : CType} (h : type.front ++ [.sign '(', .sign '*'] = other.front ++ [.sign '*']) : False := by
    rw [List.append_cons] at h
    exact not_opens_bracket _ (List.append_cancel_right h ▸ opens_front other)
  rw [front, front] at h
  split at h <;> split at h
  case isTrue.isTrue htype hother => exact ⟨htype.trans hother.symm, List.append_cancel_right h⟩
  case isTrue.isFalse => exact absurd h hnot
  case isFalse.isTrue => exact absurd h.symm hnot
  case isFalse.isFalse htype hother =>
    exact ⟨(eq_false_of_ne_true htype).trans (eq_false_of_ne_true hother).symm, List.append_cancel_right h⟩

theorem token_inj {q r : Qualifier} (h : q.token = r.token) : q = r := by
  cases q <;> cases r <;> first | rfl | cases h

theorem count_inj {count other : UInt32} (h : (toString count.toNat).toList = (toString other.toNat).toList) :
    count = other :=
  UInt32.toNat_inj.mp (nat_eq_of_repr (String.toList_inj.mp h))

theorem readsOnce_base (name : BaseName) : (CType.base name).ReadsOnce := by
  intro other rest rest' hother hrest hrest' hfront hback
  have hform := (Plain.base name).form_eq hother hrest hrest' hfront hback
  cases hother with
  | base name' =>
    have hname : name = name' := Subtype.ext (String.toList_inj.mp (Token.word.inj (List.cons.inj hfront).1))
    exact ⟨by rw [hname], hback⟩
  | qualified q hchain h =>
    rw [front_qualified_chain q hchain] at hfront
    exact absurd (List.cons.inj hfront).1 (word_ne_token name q)
  | _ => cases hform

namespace ReadsOnce

variable {type : CType}

theorem qualified (ih : type.ReadsOnce) (q : Qualifier) (hchain : type.isChain) (h : type.Plain) :
    (CType.qualified q type).ReadsOnce := by
  intro other rest rest' hother hrest hrest' hfront hback
  have hform := (Plain.qualified q hchain h).form_eq hother hrest hrest' hfront hback
  rw [form_qualified q hchain] at hform
  rw [front_qualified_chain q hchain] at hfront
  cases hother with
  | base name => exact absurd (List.cons.inj hfront).1.symm (word_ne_token name q)
  | qualified r hchain' h' =>
    rw [front_qualified_chain r hchain'] at hfront
    obtain ⟨htoken, hfront⟩ := List.cons.inj hfront
    obtain ⟨rfl, hsame⟩ := ih _ rest rest' h' hrest hrest' hfront hback
    exact ⟨by rw [token_inj htoken], hsame⟩
  | _ => cases hform

theorem target {other : CType} {rest rest' : List Token} (ih : type.ReadsOnce) (hother : other.Plain)
    (hrest : Ends rest) (hrest' : Ends rest') (hfront : (CType.pointer type).front = (CType.pointer other).front)
    (hback : (CType.pointer type).back ++ rest = (CType.pointer other).back ++ rest') :
    type = other ∧ rest = rest' := by
  obtain ⟨hbinds, hfront⟩ := front_pointer_inj hfront
  rw [back, back, hbinds] at hback
  split at hback
  case isTrue => exact ih other rest rest' hother hrest hrest' hfront (List.cons.inj hback).2
  case isFalse => exact ih other rest rest' hother hrest hrest' hfront hback

theorem pointer (ih : type.ReadsOnce) (h : type.Plain) : (CType.pointer type).ReadsOnce := by
  intro other rest rest' hother hrest hrest' hfront hback
  have hform := (Plain.pointer h).form_eq hother hrest hrest' hfront hback
  cases hother with
  | pointer h' =>
    obtain ⟨rfl, hsame⟩ := ih.target h' hrest hrest' hfront hback
    exact ⟨rfl, hsame⟩
  | qualified r hchain h' => cases hform.trans (form_qualified r hchain)
  | _ => cases hform

theorem qualifiedPointer (ih : type.ReadsOnce) (q : Qualifier) (h : type.Plain) :
    (CType.qualified q (.pointer type)).ReadsOnce := by
  intro other rest rest' hother hrest hrest' hfront hback
  have hform := (Plain.qualifiedPointer q h).form_eq hother hrest hrest' hfront hback
  cases hother with
  | qualifiedPointer r h' =>
    rw [front_qualified_pointer, front_qualified_pointer] at hfront
    obtain ⟨hfront, htoken⟩ := List.append_inj' hfront rfl
    obtain ⟨rfl, hsame⟩ := ih.target h' hrest hrest' hfront hback
    exact ⟨by rw [token_inj (List.cons.inj htoken).1], hsame⟩
  | qualified r hchain h' => cases hform.trans (form_qualified r hchain)
  | _ => cases hform

theorem array (ih : type.ReadsOnce) (count : UInt32) (h : type.Plain) : (CType.array count type).ReadsOnce := by
  intro other rest rest' hother hrest hrest' hfront hback
  have hform := (Plain.array count h).form_eq hother hrest hrest' hfront hback
  cases hother with
  | array count' h' =>
    obtain ⟨hcount, hclose⟩ := List.cons.inj (List.cons.inj hback).2
    obtain ⟨rfl, hsame⟩ := ih _ rest rest' h' hrest hrest' hfront (List.cons.inj hclose).2
    exact ⟨by rw [count_inj (Token.word.inj hcount)], hsame⟩
  | qualified r hchain h' => cases hform.trans (form_qualified r hchain)
  | _ => cases hform

theorem tokens {other : CType} {rest rest' : List Token} (ih : type.ReadsOnce) (hother : other.Plain)
    (hrest : Ends rest) (hrest' : Ends rest') (htokens : type.tokens ++ rest = other.tokens ++ rest') :
    type = other ∧ rest = rest' := by
  rw [CType.tokens, CType.tokens, List.append_assoc, List.append_assoc] at htokens
  obtain ⟨hfront, hback⟩ := (opens_front type).split (opens_front other) (closes_back hrest type)
    (closes_back hrest' other) htokens
  exact ih other rest rest' hother hrest hrest' hfront hback

end ReadsOnce

end CType

/-- The words and signs of parameters are read in one way up to the bracket that closes them. -/
def Parameters.ReadsOnce (parameters : Parameters) : Prop :=
  ∀ (other : Parameters) (rest rest' : List Token), other.Plain →
    parameters.tokens ++ .sign ')' :: rest = other.tokens ++ .sign ')' :: rest' → parameters = other ∧ rest = rest'

theorem CType.ReadsOnce.function {parameters : Parameters} {result : CType} (ihParameters : parameters.ReadsOnce)
    (ih : result.ReadsOnce) (hparameters : parameters.Plain) (h : result.Plain) :
    (CType.function parameters result).ReadsOnce := by
  intro other rest rest' hother hrest hrest' hfront hback
  have hform := (CType.Plain.function hparameters h).form_eq hother hrest hrest' hfront hback
  cases hother with
  | function hparameters' h' =>
    rw [CType.back, CType.back, List.cons_append, List.cons_append, List.append_assoc, List.append_assoc] at hback
    obtain ⟨rfl, hresult⟩ := ihParameters _ _ _ hparameters' (List.cons.inj hback).2
    obtain ⟨rfl, hsame⟩ := ih _ rest rest' h' hrest hrest' hfront hresult
    exact ⟨rfl, hsame⟩
  | qualified r hchain h' => cases hform.trans (CType.form_qualified r hchain)
  | _ => cases hform

namespace Parameters

@[simp]
theorem tokens_one (type : CType) : (one type).tokens = type.tokens := rfl

@[simp]
theorem tokens_more (type : CType) (rest : Parameters) :
    (more type rest).tokens = type.tokens ++ .sign ',' :: rest.tokens := rfl

theorem readsOnce_one {type : CType} (ih : type.ReadsOnce) : (one type).ReadsOnce := by
  intro other rest rest' hother htokens
  rw [tokens_one] at htokens
  cases hother with
  | one h =>
    obtain ⟨rfl, hsame⟩ := ih.tokens h (.close rest) (.close rest') htokens
    exact ⟨rfl, (List.cons.inj hsame).2⟩
  | more h hmore =>
    rw [tokens_more, List.append_assoc, List.cons_append] at htokens
    obtain ⟨-, hsame⟩ := ih.tokens h (.close rest) (.comma _) htokens
    cases (List.cons.inj hsame).1

theorem readsOnce_more {type : CType} {others : Parameters} (ih : type.ReadsOnce) (ihOthers : others.ReadsOnce) :
    (more type others).ReadsOnce := by
  intro other rest rest' hother htokens
  rw [tokens_more, List.append_assoc, List.cons_append] at htokens
  cases hother with
  | one h =>
    obtain ⟨-, hsame⟩ := ih.tokens h (.comma _) (.close rest') htokens
    cases (List.cons.inj hsame).1
  | more h hmore =>
    rw [tokens_more, List.append_assoc, List.cons_append] at htokens
    obtain ⟨rfl, hsame⟩ := ih.tokens h (.comma _) (.comma _) htokens
    obtain ⟨rfl, hend⟩ := ihOthers _ rest rest' hmore (List.cons.inj hsame).2
    exact ⟨rfl, hend⟩

end Parameters

mutual

theorem CType.Plain.readsOnce : ∀ {type : CType}, type.Plain → type.ReadsOnce
  | _, .base name => CType.readsOnce_base name
  | _, .qualified q hchain h => (CType.Plain.readsOnce h).qualified q hchain h
  | _, .qualifiedPointer q h => (CType.Plain.readsOnce h).qualifiedPointer q h
  | _, .pointer h => (CType.Plain.readsOnce h).pointer h
  | _, .array count h => (CType.Plain.readsOnce h).array count h
  | _, .function hparameters h =>
    .function (Parameters.Plain.readsOnce hparameters) (CType.Plain.readsOnce h) hparameters h

theorem Parameters.Plain.readsOnce : ∀ {parameters : Parameters}, parameters.Plain → parameters.ReadsOnce
  | _, .one h => Parameters.readsOnce_one (CType.Plain.readsOnce h)
  | _, .more h hmore => Parameters.readsOnce_more (CType.Plain.readsOnce h) (Parameters.Plain.readsOnce hmore)

end

namespace CType

theorem Plain.eq_of_text {type other : CType} (h : type.Plain) (hother : other.Plain)
    (htext : type.declarator.text = other.declarator.text) : type = other := by
  have htokens : type.tokens ++ [] = other.tokens ++ [] := by rw [← lex_text, ← lex_text, htext]
  exact (h.readsOnce.tokens hother .nil .nil htokens).1

/-- Types have the same name if the same is said. -/
theorem text_eq_iff (type other : CType) : type.declarator.text = other.declarator.text ↔ type.said = other.said := by
  constructor
  · intro h
    rw [← declarator_said type, ← declarator_said other] at h
    exact (plain_said type).eq_of_text (plain_said other) h
  · intro h
    rw [← declarator_said type, ← declarator_said other, h]

end CType

end FirmwareDebug
