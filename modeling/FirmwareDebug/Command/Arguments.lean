import FirmwareDebug.Log
import FirmwareDebug.Text.Hex
import FirmwareDebug.Value

/-!
# Arguments of the command line

What is asked for by the words of the command line. Options may stand anywhere; two dashes alone end
them. Words are looked at in their order: help and the version are only given if nothing before them
is wrong.
-/

namespace FirmwareDebug

/-- The files and numbers that describe a stopped target. -/
structure CoreFiles where
  registers : String
  ram : String
  ramBase : UInt32 := 0x20000000
  maxFrames : Nat := 32
  deriving DecidableEq, Repr

/-- What can be done with an image. -/
inductive Command
  | units (image : String)
  | line (image : String) (address : UInt32)
  | breakpoints (image file : String) (line : UInt32)
  | context (image : String) (address : UInt32)
  | type (image : String) (offset : UInt32)
  | unwindCode (image : String) (address : UInt32)
  | backtrace (image : String) (core : CoreFiles)
  | locals (image : String) (core : CoreFiles) (frame : Nat) (base : NumericBase)
  | coverage (image : String)
  deriving DecidableEq, Repr

def Command.files : Command → List String
  | units image | line image _ | breakpoints image _ _ | context image _ | type image _
  | unwindCode image _ | coverage image => [image]
  | backtrace image core | locals image core _ _ => [image, core.registers, core.ram]

namespace Arguments

/-- Why there is no command to run. -/
inductive Stop
  | help | version
  /-- The words do not make a command. -/
  | misuse
  deriving DecidableEq, Repr

/-- The number that digits of a base give; there must be at least one. -/
def digits? (base : Nat) (digits : List Char) : Option Nat :=
  if digits.isEmpty then none
  else digits.foldlM (fun value c => do
    let digit ← Text.hexDigit? c
    if digit < base then some (value * base + digit) else none) 0

def unsigned? (base : Nat) : List Char → Option Nat
  | '+' :: digits => digits? base digits
  | digits => digits? base digits

def word? (value : Nat) : Option UInt32 := if value < 2 ^ 32 then some (UInt32.ofNat value) else none

def isBlank (c : Char) : Bool :=
  [(0x9, 0xd), (0x20, 0x20), (0x85, 0x85), (0xa0, 0xa0), (0x1680, 0x1680), (0x2000, 0x200a),
    (0x2028, 0x2029), (0x202f, 0x202f), (0x205f, 0x205f), (0x3000, 0x3000)].any
    fun (low, high) => low ≤ c.toNat && c.toNat ≤ high

def trimmed (text : List Char) : List Char :=
  ((text.dropWhile isBlank).reverse.dropWhile isBlank).reverse

/-- An address, hexadecimal behind `0x` and else decimal. -/
def address? (text : String) : Option UInt32 :=
  match trimmed text.toList with
  | '0' :: 'x' :: digits | '0' :: 'X' :: digits => unsigned? 16 digits >>= word?
  | digits => unsigned? 10 digits >>= word?

/-- A line number; minus zero is zero. -/
def line? (text : String) : Option UInt32 :=
  match text.toList with
  | '-' :: digits => (digits? 10 digits).bind fun value => if value = 0 then some 0 else none
  | digits => unsigned? 10 digits >>= word?

def count? (text : String) : Option Nat := (unsigned? 10 text.toList).filter (· < 2 ^ 64)

def path? (text : String) : Option String := if text = "" then none else some text

def isLogLevel (word : String) : Bool := (LogLevel.ofText word).isOk

def isLogFormat (word : String) : Bool := (LogFormat.ofText word).isOk

/-- Which words may come, and what they may say. -/
structure Known where
  /-- The words that are no options, in their order. -/
  positional : List (String → Bool) := []
  /-- The options with a value. -/
  valued : List (String × (String → Bool))
  /-- The options without a value. -/
  plain : List String := []
  /-- The commands, one of which ends the words. -/
  commands : List String := []
  /-- Whether the version may be asked for. -/
  versioned : Bool := false

/-- The words that came so far. -/
structure Words where
  positional : List String := []
  options : List (String × String) := []
  /-- The last option and its value while they are not looked at. -/
  waiting : Option (String × String) := none
  deriving Repr

namespace Words

def add (words : Words) (name value : String) (allowed : String → Bool) : Except Stop Words :=
  if (words.options.lookup name).isSome || !allowed value then .error .misuse
  else .ok { words with options := words.options ++ [(name, value)] }

def settle (known : Known) (words : Words) : Except Stop Words :=
  match words.waiting with
  | none => .ok words
  | some (name, value) =>
    { words with waiting := none }.add name value ((known.valued.lookup name).getD fun _ => false)

def push (known : Known) (words : Words) (word : String) : Except Stop Words := do
  let words ← words.settle known
  match known.positional[words.positional.length]? with
  | some allowed =>
    if allowed word then return { words with positional := words.positional ++ [word] } else throw .misuse
  | none => throw .misuse

/-- The end of the words because of what one asks for, if those before it are right. -/
def stop {α : Type} (known : Known) (words : Words) (reason : Stop) : Except Stop α := do
  let _ ← words.settle known
  throw reason

end Words

def isOption (word : String) : Bool :=
  match word.toList with
  | '-' :: _ :: _ => true
  | _ => false

/-- The name of a long option and the value behind its equals sign. -/
def longOption? (word : String) : Option (String × Option String) :=
  match word.toList with
  | '-' :: '-' :: text =>
    let value := (text.dropWhile (· ≠ '=')).tail?.map String.ofList
    some (String.ofList (text.takeWhile (· ≠ '=')), value)
  | _ => none

def shortOption (word : String) (versioned : Bool) : Stop :=
  match word.toList with
  | _ :: 'h' :: _ => .help
  | _ :: 'V' :: _ => if versioned then .version else .misuse
  | _ => .misuse

def plainOption (name : String) (versioned : Bool) : Stop :=
  if name = "help" then .help
  else if name = "version" ∧ versioned then .version
  else .misuse

/--
Sort words up to a command; gives the command and the words behind it, if there is one. A value in a
word of its own is looked at when the next word comes, so the last one may still wait.
-/
def scan (known : Known) : Words → List String → Except Stop (Words × Option (String × List String))
  | words, [] => .ok (words, none)
  | words, word :: rest =>
    if known.commands.contains word then .ok (words, some (word, rest))
    else if word = "--" then do return (← rest.foldlM (Words.push known) words, none)
    else if !isOption word then do scan known (← words.push known word) rest
    else
      match longOption? word with
      | none => words.stop known (shortOption word known.versioned)
      | some (name, value) =>
        match known.valued.lookup name, value, rest with
        | some allowed, some value, rest => do
          scan known (← (← words.settle known).add name value allowed) rest
        | some _, none, value :: rest =>
          if isOption value then .error .misuse
          else do scan known { ← words.settle known with waiting := some (name, value) } rest
        | some _, none, [] => .error .misuse
        | none, some _, _ => .error .misuse
        | none, none, rest =>
          if known.plain.contains name then do
            scan known (← (← words.settle known).add name "" fun _ => true) rest
          else words.stop known (plainOption name known.versioned)

def logOptions : List (String × (String → Bool)) := [("log-level", isLogLevel), ("log-format", isLogFormat)]

def coreOptions : List (String × (String → Bool)) :=
  [("registers", fun w => (path? w).isSome), ("ram", fun w => (path? w).isSome),
    ("ram-base", fun w => (address? w).isSome), ("max-frames", fun w => (count? w).isSome)]

def knownTo (command : String) : Known :=
  let image : String → Bool := fun w => (path? w).isSome
  let address : String → Bool := fun w => (address? w).isSome
  match command with
  | "line" | "context" | "type" | "unwind-code" => { positional := [image, address], valued := logOptions }
  | "breakpoints" =>
    { positional := [image, fun _ => true, fun w => (line? w).isSome], valued := logOptions }
  | "backtrace" => { positional := [image], valued := logOptions ++ coreOptions }
  | "locals" =>
    let frame : String → Bool := fun w => (count? w).isSome
    { positional := [image], valued := logOptions ++ coreOptions ++ [("frame", frame)], plain := ["hex"] }
  | _ => { positional := [image], valued := logOptions }

def valueOr {α : Type} (words : Words) (name : String) (read : String → Option α) (default : α) : Option α :=
  match words.options.lookup name with
  | some text => read text
  | none => some default

def core? (words : Words) : Option CoreFiles := do
  let registers ← words.options.lookup "registers" >>= path?
  let ram ← words.options.lookup "ram" >>= path?
  let ramBase ← valueOr words "ram-base" address? 0x20000000
  let maxFrames ← valueOr words "max-frames" count? 32
  return { registers, ram, ramBase, maxFrames }

def command? (name : String) (words : Words) : Option Command := do
  match name, words.positional with
  | "units", [image] => return .units (← path? image)
  | "line", [image, address] => return .line (← path? image) (← address? address)
  | "breakpoints", [image, file, line] => return .breakpoints (← path? image) file (← line? line)
  | "context", [image, address] => return .context (← path? image) (← address? address)
  | "type", [image, offset] => return .type (← path? image) (← address? offset)
  | "unwind-code", [image, address] => return .unwindCode (← path? image) (← address? address)
  | "backtrace", [image] => return .backtrace (← path? image) (← core? words)
  | "locals", [image] =>
    let frame ← valueOr words "frame" count? 0
    let base := if (words.options.lookup "hex").isSome then .hexadecimal else .decimal
    return .locals (← path? image) (← core? words) frame base
  | "coverage", [image] => return .coverage (← path? image)
  | _, _ => none

def commandNames : List String :=
  ["units", "line", "breakpoints", "context", "type", "unwind-code", "backtrace", "locals", "coverage"]

def parseCommand (name : String) (rest : List String) : Except Stop Command := do
  let known := knownTo name
  let (words, _) ← scan known {} rest
  match command? name (← words.settle known) with
  | some command => return command
  | none => throw .misuse

/-- What is asked for with help: nothing, or a single command. -/
def parseHelp (rest : List String) : Stop :=
  match rest with
  | [] => .help
  | [name] => if name = "help" ∨ commandNames.contains name then .help else .misuse
  | _ => .misuse

def knownFirst : Known := { valued := logOptions, commands := "help" :: commandNames, versioned := true }

def parse (arguments : List String) : Except Stop Command := do
  match ← scan knownFirst {} arguments with
  | (_, none) => throw .misuse
  | (words, some (name, rest)) =>
    if name = "help" then throw (parseHelp rest)
    let command ← parseCommand name rest
    let _ ← words.settle knownFirst
    return command

end Arguments

end FirmwareDebug
