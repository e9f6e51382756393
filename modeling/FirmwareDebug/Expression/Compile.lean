import FirmwareDebug.DebugInfo
import FirmwareDebug.Expression.Operation

/-!
# Compiling expressions

Expressions become programs of the stack machine. A branch may only go forward, and no second one
may start before the first has ended: it becomes a conditional whose end stands in front of the
operation that the branch goes to.

An operation that no words stand for is refused and ends the program. `compile` then fails or marks the
place, depending on its mode.
-/

namespace FirmwareDebug.Expression

/-- What a refused operation leads to. -/
inductive Mode
  /-- The expression fails. -/
  | strict
  /-- The program so far is kept, with a mark at its end. -/
  | diagnostic
  deriving DecidableEq, Repr

/-- What becomes of one operation. -/
inductive Compiled
  | words (words : List Word)
  /-- A conditional over some bytes; the word in front of it makes the cell to test. -/
  | branch (test : Word) (displacement : Int16)
  /-- No words stand for it, after those that were made already. -/
  | refused (leftover : List Word)
  deriving DecidableEq, Repr

/-- The word that changes a cell to a base type, if the type can be read and fits a cell. -/
def convertWord? (info : DebugInfo) (unit type : UInt32) : Option Word := do
  guard (unit.toNat + type.toNat < 2 ^ 32)
  let type := unit + type
  let size ← (info.constant? type .byteSize).toOption.join
  guard (size ≠ 0 ∧ size ≤ 4)
  let encoding := (info.constant? type .encoding).toOption.join.getD 0
  return .convert type size.toUInt8 (encoding = 5 || encoding = 6)

def thenConvert (info : DebugInfo) (unit type : UInt32) (words : List Word) : Compiled :=
  match convertWord? info unit type with
  | some word => .words (words ++ [word])
  | none => .refused words

/-- What becomes of an operation, in the unit whose header is at `unit`. -/
def compileOperation (info : DebugInfo) (unit : UInt32) : Operation → Except Fault Compiled
  | .word word => .ok (.words [word])
  | .plusConstant value => .ok (.words [.literal value, .binary .plus])
  | .branch always displacement =>
    .ok (.branch (if always then .literal 0 else .zeroEquals) displacement)
  | .nop => .ok (.words [])
  | .bitPiece size offset =>
    .ok (if size % 8 = 0 ∧ offset = 0 then .words [.piece (size / 8)] else .refused [])
  | .implicit bytes => .ok (.words [.implicitValue (wordOfBytes bytes)])
  | .addressIndex index =>
    match info.unitWithHeader unit with
    | none => .error (.notAnEntry unit)
    | some summary => do return .words [.literal (← info.sections.addressAt summary.bases index)]
  | .typedConstant type bytes =>
    .ok (if 4 < bytes.length then .refused [] else thenConvert info unit type [.literal (wordOfBytes bytes)])
  | .typedRegister register type => .ok (thenConvert info unit type [.registerValue register 0])
  | .typedDeref size type =>
    .ok (if size = 0 ∨ 4 < size then .refused [] else thenConvert info unit type [.derefSize size])
  | .convert type => .ok (if type = 0 then .words [] else thenConvert info unit type [])
  | .other => .ok (.refused [])

/-- How the words of an expression end. -/
inductive Ending
  | complete
  /-- At a refused operation. -/
  | refused (opcode : UInt8) (fault : Fault)
  | failed (fault : Fault)
  deriving Repr

/-- The words of an expression, up to its end or to where it is given up. -/
structure CompiledWords where
  words : List Word
  ending : Ending
  deriving Repr

namespace CompiledWords

def after (words : List Word) (rest : CompiledWords) : CompiledWords :=
  { rest with words := words ++ rest.words }

def failed (fault : Fault) : CompiledWords := ⟨[], .failed fault⟩

/-- The end of the expression; a conditional that is open must end just there. -/
def atEnd (c : Cursor) : Option Nat → CompiledWords
  | none => ⟨[], .complete⟩
  | some target =>
    if target = c.limit then ⟨[.endIf], .complete⟩
    else failed (.malformed region target .branchBeyondEnd)

/-- The word that ends a conditional here, if one does, and what is still open then. -/
def closeHere (c : Cursor) : Option Nat → Except Fault (List Word × Option Nat)
  | none => .ok ([], none)
  | some target =>
    if target = c.position then .ok ([.endIf], none)
    else if target < c.position then .error (c.fault (.branchIntoOperand target))
    else .ok ([], some target)

/-- The words from a cursor on; `target` is where the open conditional ends, if one is open. -/
def fromCursor (info : DebugInfo) (unit : UInt32) :
    (budget : Nat) → (target : Option Nat) → Cursor → CompiledWords
  | 0, _, c => failed c.endFault
  | budget + 1, target, c =>
    if c.atEnd then atEnd c target
    else match closeHere c target with
      | .error fault => failed fault
      | .ok (closing, target) => after closing <|
        match Operation.read c with
        | .error fault _ => failed fault
        | .ok (opcode, operation) next =>
          match compileOperation info unit operation with
          | .error fault => failed fault
          | .ok (.words words) => after words (fromCursor info unit budget target next)
          | .ok (.refused leftover) => ⟨leftover, .refused opcode (.unsupportedOpcode opcode c.position)⟩
          | .ok (.branch test displacement) =>
            if displacement < 0 then ⟨[], .refused opcode (.negativeBranch displacement)⟩
            else if target.isSome then ⟨[], .refused opcode .nestedBranch⟩
            else after [test, .ifNonzero] <|
              fromCursor info unit budget (some (next.position + displacement.toInt.toNat)) next

def program (mode : Mode) (t : CompiledWords) : Except Fault Program :=
  match t.ending, mode with
  | .complete, _ => .ok t.words
  | .failed fault, _ => .error fault
  | .refused _ fault, .strict => .error fault
  | .refused opcode _, .diagnostic => .ok (t.words ++ [.unsupported opcode])

def refusedOpcode? (t : CompiledWords) : Option UInt8 :=
  match t.ending with
  | .refused opcode _ => some opcode
  | _ => none

end CompiledWords

/-- The words of an expression of the unit whose header is at `unit`. -/
def compiledWords (info : DebugInfo) (unit : UInt32) (expression : List UInt8) : CompiledWords :=
  .fromCursor info unit (expression.length + 1) none (.place region expression.toArray 0)

def compile (info : DebugInfo) (mode : Mode) (unit : UInt32) (expression : List UInt8) :
    Except Fault Program :=
  (compiledWords info unit expression).program mode

/-! ## How often opcodes are refused -/

/-- Opcodes with how often they were refused, in order of the opcodes. -/
abbrev Tally := List (UInt8 × Nat)

def Tally.add (opcode : UInt8) : Tally → Tally
  | [] => [(opcode, 1)]
  | (known, count) :: rest =>
    if opcode < known then (opcode, 1) :: (known, count) :: rest
    else if opcode = known then (known, count + 1) :: rest
    else (known, count) :: Tally.add opcode rest

def Tally.ofList (opcodes : List UInt8) : Tally := opcodes.foldl (fun tally opcode => Tally.add opcode tally) []

def Tally.ofCompiled (expressions : List CompiledWords) : Tally :=
  .ofList (expressions.filterMap CompiledWords.refusedOpcode?)

def tally (info : DebugInfo) (unit : UInt32) (expressions : List (List UInt8)) : Tally :=
  .ofCompiled (expressions.map (compiledWords info unit))

end FirmwareDebug.Expression
