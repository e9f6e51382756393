import FirmwareDebug.Proofs.Keeps
import FirmwareDebug.Machine

/-!
# Nested conditionals

A program is flat, and its conditionals are marked by words in front of and behind their bodies. Where
these words pair up, the machine runs the program as a tree: it takes a cell for each conditional, and
carries out the body exactly if the cell is not zero. A body that is passed over may hold conditionals of
its own, to any depth; what is passed over ends with it.
-/

namespace FirmwareDebug

/-- Words that neither belong to conditionals nor are call frame words. -/
def Word.IsPlain : Word → Prop
  | .ifNonzero | .endIf | .frame _ => False
  | _ => True

/-- A program whose conditionals have their bodies inside them. -/
inductive Structured
  | done
  | step (word : Word) (plain : word.IsPlain) (rest : Structured)
  | conditional (body rest : Structured)

namespace Structured

/-- The words of a program one behind the other, with those that mark the conditionals. -/
def flatten : Structured → Program
  | done => []
  | step word _ rest => word :: rest.flatten
  | conditional body rest => .ifNonzero :: (body.flatten ++ .endIf :: rest.flatten)

variable {σ : Type}

/-- Carry out a program: the body of a conditional only if the cell that is taken for it is not zero. -/
def run (host : Host σ) : Structured → Run σ Unit
  | done => return
  | step word _ rest => do
    Run.step host word
    rest.run host
  | conditional body rest => do
    if (← Run.pop .ifNonzero) ≠ 0 then body.run host
    rest.run host

end Structured

namespace Run

variable {σ : Type} {host : Host σ} {word : Word}

theorem words_plain (h : word.IsPlain) (rest : Program) :
    words host none (word :: rest) = step host word >>= fun _ => words host none rest := by
  refine words.eq_9 host word rest ?_ ?_
  · rintro rfl
    exact h
  · rintro frame rfl
    exact h

theorem words_skip_plain (h : word.IsPlain) (depth : Nat) (rest : Program) :
    words host (some depth) (word :: rest) = words host (some depth) rest := by
  refine words.eq_6 host depth word rest ?_ ?_ ?_
  · rintro rfl
    exact h
  · rintro - rfl
    exact h
  · rintro - - rfl
    exact h

@[simp]
theorem words_endIf (back : Program) : words host none (.endIf :: back) = words host none back := rfl

/-- Whatever conditionals a part holds, passing over it leaves open those that were open before it. -/
@[simp]
theorem words_skip_flatten (part : Structured) (depth : Nat) (back : Program) :
    words host (some depth) (part.flatten ++ back) = words host (some depth) back := by
  induction part generalizing depth back with
  | done => rfl
  | step word plain rest ih =>
    rw [Structured.flatten, List.cons_append, words_skip_plain plain, ih]
  | conditional body rest ihBody ihRest =>
    calc words host (some depth) ((Structured.conditional body rest).flatten ++ back)
      _ = words host (some (depth + 1)) (body.flatten ++ .endIf :: (rest.flatten ++ back)) := by
        rw [Structured.flatten, List.cons_append, List.append_assoc, List.cons_append, words]
      _ = words host (some (depth + 1)) (.endIf :: (rest.flatten ++ back)) := ihBody _ _
      _ = words host (some depth) (rest.flatten ++ back) := by rw [words]
      _ = words host (some depth) back := ihRest _ _

theorem words_flatten (part : Structured) (back : Program) :
    words host none (part.flatten ++ back) = part.run host >>= fun _ => words host none back := by
  induction part generalizing back with
  | done => rfl
  | step word plain rest ih =>
    rw [Structured.flatten, List.cons_append, words_plain plain, ih, Structured.run, bind_assoc]
  | conditional body rest ihBody ihRest =>
    rw [Structured.flatten, List.cons_append, List.append_assoc, List.cons_append, words, Structured.run, bind_assoc]
    congr 1
    funext cell
    by_cases hzero : cell = 0
    · rw [if_pos hzero, words_skip_flatten, words, ihRest, if_neg (not_not.mpr hzero)]
    · rw [if_neg hzero, ihBody, words_endIf, ihRest, if_pos hzero, bind_assoc]

end Run

/--
A program with nested conditionals runs as its words do, on every machine and with every host: it ends alike and
leaves the same machine. What is passed over ends at the word that closes it, whatever conditionals are inside.
-/
theorem Structured.program_flatten {σ : Type} (host : Host σ) (part : Structured) :
    Run.program host part.flatten = part.run host ∧
      ∀ back, Run.words host (some 0) (part.flatten ++ .endIf :: back) = Run.words host none back := by
  refine ⟨?_, fun back => ?_⟩
  · have hwords : Run.words host none (part.flatten ++ []) = part.run host := by
      rw [Run.words_flatten]
      exact bind_pure (part.run host)
    rwa [List.append_nil] at hwords
  · rw [Run.words_skip_flatten, Run.words]

example : (Structured.conditional (.step .drop trivial (.conditional .done .done)) (.step .dup trivial .done)).flatten =
    [.ifNonzero, .drop, .ifNonzero, .endIf, .endIf, .dup] := rfl

end FirmwareDebug
