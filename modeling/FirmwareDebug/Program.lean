import FirmwareDebug.Text.Hex

/-! # Programs of the stack machine

A program is a flat list of words over 32-bit cells. Its one control construct goes forward: `if`
pops a cell and skips past the matching `then` when the cell is zero.
-/

namespace FirmwareDebug

/-- Operators that pop two cells and push one. -/
inductive BinaryOp
  | and | or | xor | plus | minus | mul
  /-- Signed division. -/
  | div
  /-- Unsigned remainder. -/
  | mod
  | shl | shr
  /-- Shift that keeps the sign. -/
  | shra
  deriving DecidableEq, Repr

/-- Signed comparisons; they push one or zero. -/
inductive Comparison
  | eq | ne | lt | le | gt | ge
  deriving DecidableEq, Repr

/-- Words that change an unwind row instead of the stack. -/
inductive FrameWord
  /-- The column that holds the return address. -/
  | returnAddressRegister (register : UInt32)
  /-- The rules so far are the ones that `restore` goes back to. -/
  | initialEnd
  | setLocation (address : UInt32)
  | advance (delta : UInt32)
  | defCfa (register : UInt32) (offset : Int32)
  | defCfaRegister (register : UInt32)
  | defCfaOffset (offset : Int32)
  /-- The register is saved at the frame address plus an offset. -/
  | offset (register : UInt32) (offset : Int32)
  /-- The register's value is the frame address plus an offset. -/
  | valueOffset (register : UInt32) (offset : Int32)
  /-- The register's value is held in another register. -/
  | copied (register source : UInt32)
  | restore (register : UInt32)
  | undefined (register : UInt32)
  | sameValue (register : UInt32)
  | rememberState
  | restoreState
  deriving DecidableEq, Repr

/-- One instruction of the stack machine. -/
inductive Word
  | literal (value : UInt32)
  | dup
  | drop
  | dupSecond
  /-- Copy the cell a number of places below the top. -/
  | pick (depth : UInt8)
  | swap
  /-- Move the top cell down two places. -/
  | rot
  /-- Replace the address on top by the word stored there. -/
  | deref
  /-- Replace the address on top by that many bytes stored there, zero extended. -/
  | derefSize (size : UInt8)
  | abs
  | neg
  | not
  | binary (op : BinaryOp)
  | compare (op : Comparison)
  /-- Replace the top by one if it is zero, else by zero. -/
  | zeroEquals
  | ifNonzero
  | endIf
  /-- The value lives in a register. -/
  | register (register : UInt32)
  | registerValue (register : UInt32) (offset : Int32)
  | frameBase (offset : Int32)
  | callFrameCfa
  /-- The top of the stack is the value itself and not its address. -/
  | stackValue
  | implicitValue (value : UInt32)
  /-- Close a piece of so many bytes. -/
  | piece (size : UInt32)
  /-- Push the value that a register expression had on entry to the function. -/
  | entryValue (block : List UInt8)
  /-- Cut the top to a number of bytes and extend it again. -/
  | convert (baseType : UInt32) (size : UInt8) (signed : Bool)
  | frame (word : FrameWord)
  /-- Stands for an operation that no words stand for. -/
  | unsupported (opcode : UInt8)
  deriving DecidableEq, Repr

abbrev Program := List Word

open Text

def BinaryOp.text : BinaryOp → String
  | and => "and"
  | or => "or"
  | xor => "xor"
  | plus => "+"
  | minus => "-"
  | mul => "*"
  | div => "/"
  | mod => "umod"
  | shl => "lshift"
  | shr => "rshift"
  | shra => "arshift"

def Comparison.text : Comparison → String
  | eq => "="
  | ne => "<>"
  | lt => "<"
  | le => "<="
  | gt => ">"
  | ge => ">="

def registerText (register : UInt32) : String := "r" ++ toString register.toNat

def signedText (n : Int32) : String := toString n.toInt

def FrameWord.text : FrameWord → String
  | returnAddressRegister r => registerText r ++ " return-address-register"
  | initialEnd => "initial-instructions-end"
  | setLocation a => "$" ++ hexWide 8 a.toNat ++ " DW_CFA_set_loc"
  | advance d => toString d.toNat ++ " DW_CFA_advance_loc"
  | defCfa r o => registerText r ++ " " ++ signedText o ++ " DW_CFA_def_cfa"
  | defCfaRegister r => registerText r ++ " DW_CFA_def_cfa_register"
  | defCfaOffset o => signedText o ++ " DW_CFA_def_cfa_offset"
  | offset r o => registerText r ++ " " ++ signedText o ++ " DW_CFA_offset"
  | valueOffset r o => registerText r ++ " " ++ signedText o ++ " DW_CFA_val_offset"
  | copied r s => registerText r ++ " " ++ registerText s ++ " DW_CFA_register"
  | restore r => registerText r ++ " DW_CFA_restore"
  | undefined r => registerText r ++ " DW_CFA_undefined"
  | sameValue r => registerText r ++ " DW_CFA_same_value"
  | rememberState => "DW_CFA_remember_state"
  | restoreState => "DW_CFA_restore_state"

def Word.text : Word → String
  | literal v => if v < 0x100 then toString v.toNat else "$" ++ hex v.toNat
  | dup => "dup"
  | drop => "drop"
  | dupSecond => "over"
  | pick d => toString d.toNat ++ " pick"
  | swap => "swap"
  | rot => "-rot"
  | deref => "@"
  | derefSize s => toString s.toNat ++ " @n"
  | abs => "abs"
  | neg => "negate"
  | not => "invert"
  | binary op => op.text
  | compare op => op.text
  | zeroEquals => "0="
  | ifNonzero => "if"
  | endIf => "then"
  | register r => registerText r ++ " DW_OP_reg"
  | registerValue r o => registerText r ++ " " ++ signedText o ++ " breg"
  | frameBase o => signedText o ++ " fbreg"
  | callFrameCfa => "cfa"
  | stackValue => "DW_OP_stack_value"
  | implicitValue v => "$" ++ hex v.toNat ++ " DW_OP_implicit_value"
  | piece s => toString s.toNat ++ " DW_OP_piece"
  | entryValue block => "[" ++ String.join (block.map fun b => " " ++ hexByte b) ++ " ] entry-value"
  | convert t s signed =>
    "<0x" ++ hex t.toNat ++ ":" ++ toString s.toNat ++ (if signed then "s" else "u") ++ "> convert"
  | frame w => w.text
  | unsupported opcode => "<unsupported 0x" ++ hexByte opcode ++ ">"

def Word.isFrame : Word → Bool
  | frame _ => true
  | _ => false

def Word.isUnsupported : Word → Bool
  | unsupported _ => true
  | _ => false

def Program.text (program : Program) : String := " ".intercalate (program.map Word.text)

def Program.hasUnsupported (program : Program) : Bool := program.any Word.isUnsupported

end FirmwareDebug
