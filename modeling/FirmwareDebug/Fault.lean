import FirmwareDebug.CodeName
import FirmwareDebug.Location
import FirmwareDebug.Program
import FirmwareDebug.Text.Quoted

/-!
# Faults

Everything that can go wrong while reading debug information or asking a target for data. A fault
names its cause; `Fault.message` is the one place that words it.
-/

namespace FirmwareDebug

open Text

/-- What is wrong with the contents of a section. -/
inductive Defect
  | integerSize (size : UInt8)
  | unsignedTooWide
  | signedTooWide
  | unsignedPastWord (value : UInt64)
  | signedPastWord (value : Int64)
  | textNotUtf8
  | indirectForm (code : UInt64)
  | offsetPastWord (offset : UInt64)
  | tagRange (code : UInt64)
  | childrenFlag (flag : UInt8)
  | attributeRange (code : UInt64)
  | formRange (code : UInt64)
  | duplicateCode (code : UInt64)
  | sectionTooLarge
  | reservedLength (length : UInt32)
  | unitKind (code : UInt8)
  | stringIndex
  | addressIndex (index : UInt64)
  | listIndex (index : UInt64)
  | rangeEntry (code : UInt8)
  | locationEntry (code : UInt8)
  | openChildren
  | strayNull
  | ownOrigin
  | originsTooDeep
  | endlessType
  | zeroLineRange
  | contentRange
  | entryFormRange
  | pathForm (code : UInt16)
  | extendedLength
  | addressLength
  | branchIntoOperand (target : Nat)
  | branchBeyondEnd
  | notACie
  | memberLocation (opcode : UInt8)
  deriving DecidableEq, Repr

def Defect.text : Defect → String
  | integerSize size => "unsupported integer size " ++ toString size.toNat
  | unsignedTooWide => "ULEB128 value overflows 64 bits"
  | signedTooWide => "SLEB128 value overflows 64 bits"
  | unsignedPastWord value => "value 0x" ++ hex value.toNat ++ " exceeds 32 bits"
  | signedPastWord value => "value " ++ toString value.toInt ++ " exceeds 32 bits"
  | textNotUtf8 => "string is not valid UTF-8"
  | indirectForm code => "indirect form 0x" ++ hex code.toNat ++ " out of range"
  | offsetPastWord offset => "offset 0x" ++ hex offset.toNat ++ " exceeds 32 bits"
  | tagRange code => "tag 0x" ++ hex code.toNat ++ " out of range"
  | childrenFlag flag => "invalid DW_CHILDREN value " ++ toString flag.toNat
  | attributeRange code => "attribute 0x" ++ hex code.toNat ++ " out of range"
  | formRange code => "form 0x" ++ hex code.toNat ++ " out of range"
  | duplicateCode code => "duplicate abbreviation code " ++ toString code.toNat
  | sectionTooLarge => "section larger than 4 GiB"
  | reservedLength length => "reserved unit length 0x" ++ hex length.toNat
  | unitKind code => "unknown unit type " ++ CodeName.unitKind code
  | stringIndex => "string index overflow"
  | addressIndex index => "address index " ++ toString index.toNat ++ " overflows"
  | listIndex index => "list index " ++ toString index.toNat ++ " overflows"
  | rangeEntry code => "unknown range list entry " ++ CodeName.rangeEntry code
  | locationEntry code => "unknown location list entry " ++ CodeName.locationEntry code
  | openChildren => "children list is not terminated"
  | strayNull => "unbalanced null entry"
  | ownOrigin => "DIE refers to itself as its own origin"
  | originsTooDeep => "too many origin indirections"
  | endlessType => "type is made of nothing but itself"
  | zeroLineRange => "line_range is zero"
  | contentRange => "content type out of range"
  | entryFormRange => "form out of range"
  | pathForm code => "unsupported path form " ++ CodeName.form code
  | extendedLength => "extended opcode length"
  | addressLength => "address size"
  | branchIntoOperand target => "branch target " ++ toString target ++ " is inside an operand"
  | branchBeyondEnd => "branch target lies beyond the expression"
  | notACie => "CIE pointer does not name a CIE"
  | memberLocation opcode => "unsupported member location opcode " ++ CodeName.operation opcode

/-- Why the value that a register had on entry cannot be told. -/
inductive EntryValueGap
  | notARegister (block : List UInt8)
  | noCallSite (returnAddress : UInt32)
  | noCallValue (site register : UInt32)
  | callValue (value : Location)
  | insideFrameProgram
  /-- A recording of a stopped target holds no value for this expression. -/
  | notRecorded (block : List UInt8)
  deriving Repr

def EntryValueGap.text : EntryValueGap → String
  | notARegister block => "entry value of non-register expression " ++ byteList block
  | noCallSite address => "no call site returning to 0x" ++ hexWide 8 address.toNat
  | noCallValue site register =>
    "call site 0x" ++ hex site.toNat ++ " has no value for " ++ registerText register
  | callValue value => "call value evaluated to " ++ value.text
  | insideFrameProgram => "entry values inside call frame programs"
  | notRecorded block => hexBytes block

/-- What was taken from the empty stack. -/
inductive Missing
  | operand (word : Word)
  | results (count : Nat)
  deriving DecidableEq, Repr

def Missing.text : Missing → String
  | operand word => word.text
  | results count => toString count ++ " results"

/-- Why a program could not be finished. -/
inductive Obstacle
  | openIf
  | outsideFrameProgram (word : FrameWord)
  | divisionByZero
  | moduloByZero
  | refusedOpcode (opcode : UInt8)
  | frameBase (value : Location)
  | noAddress (index : UInt64)
  deriving Repr

def Obstacle.text : Obstacle → String
  | openIf => "if without matching then"
  | outsideFrameProgram word => word.text ++ " outside a call frame program"
  | divisionByZero => "division by zero"
  | moduloByZero => "modulo by zero"
  | refusedOpcode opcode => "program contains untranslated opcode 0x" ++ hexByte opcode
  | frameBase value => "frame base is not a single location: " ++ value.text
  | noAddress index => "no address " ++ toString index.toNat

/-- Ways to control a running target. -/
inductive RunControl
  | breakpointSet | breakpointClear | singleStep | resume | reset
  deriving DecidableEq, Repr

def RunControl.text : RunControl → String
  | breakpointSet => "breakpoint_set"
  | breakpointClear => "breakpoint_clear"
  | singleStep => "request_single_step"
  | resume => "resume"
  | reset => "reset"

/-- A failure and its cause. -/
inductive Fault
  /-- A read ran past the end of a section. -/
  | endOfSection (region : String) (offset : Nat)
  /-- A section breaks the rules of its encoding. -/
  | malformed (region : String) (offset : Nat) (defect : Defect)
  | unsupportedForm (code : UInt16)
  | unsupportedVersion (version : UInt16)
  /-- A unit in the 64-bit format. -/
  | wideFormat (offset : Nat)
  | unsupportedAddressSize (size : UInt8)
  | abbreviationNotFound (code : UInt64) (table : UInt32)
  /-- No entry starts at the offset. -/
  | notAnEntry (offset : UInt32)
  | unsupportedCieVersion (version : UInt8)
  | unsupportedAugmentation (text : String)
  | unsupportedOpcode (opcode : UInt8) (offset : Nat)
  | unsupportedFrameOpcode (opcode : UInt8)
  | negativeBranch (displacement : Int16)
  | nestedBranch
  /-- No type can be written for an entry with this tag. -/
  | unhandledTag (tag : UInt16)
  | memoryUnavailable (address : UInt32) (length : Nat)
  | registerUnavailable (register : UInt32)
  | frameUnavailable (frame : Nat)
  | cfaUnavailable
  | frameBaseUnavailable
  | entryValueUnavailable (gap : EntryValueGap)
  | operationUnsupported (operation : RunControl)
  | stackUnderflow (missing : Missing)
  | evaluation (obstacle : Obstacle)
  deriving Repr

namespace Fault

def message : Fault → String
  | endOfSection region offset => "Unexpected end of " ++ region ++ " at offset 0x" ++ hex offset
  | malformed region offset defect =>
    "Malformed " ++ region ++ " at offset 0x" ++ hex offset ++ ": " ++ defect.text
  | unsupportedForm code => "Unsupported attribute form " ++ CodeName.form code
  | unsupportedVersion version => "Unsupported DWARF version " ++ toString version.toNat
  | wideFormat offset => "64-bit DWARF is not supported (unit at offset 0x" ++ hex offset ++ ")"
  | unsupportedAddressSize size => "Unsupported address size " ++ toString size.toNat
  | abbreviationNotFound code table =>
    "Abbreviation code " ++ toString code.toNat ++ " not found in table at offset 0x" ++ hex table.toNat
  | notAnEntry offset =>
    "Offset 0x" ++ hex offset.toNat ++ " is not the start of a debugging information entry"
  | unsupportedCieVersion version => "Unsupported CIE version " ++ toString version.toNat
  | unsupportedAugmentation text => "Unsupported CIE augmentation " ++ quoted text
  | unsupportedOpcode opcode offset =>
    "Unsupported DWARF expression opcode " ++ CodeName.operation opcode ++ " at offset " ++ toString offset
  | unsupportedFrameOpcode opcode => "Unsupported call frame instruction 0x" ++ hexByte opcode
  | negativeBranch displacement =>
    "Backward branch (" ++ toString displacement.toInt ++ ") in DWARF expression is not supported"
  | nestedBranch => "Nested branch in DWARF expression is not supported"
  | unhandledTag tag => "Cannot render type node with tag " ++ CodeName.tag tag
  | memoryUnavailable address length =>
    "Target memory unavailable: " ++ toString length ++ " bytes at 0x" ++ hexWide 8 address.toNat
  | registerUnavailable register => "Register " ++ registerText register ++ " unavailable"
  | frameUnavailable frame => "Register frame #" ++ toString frame ++ " unavailable"
  | cfaUnavailable => "Canonical frame address unavailable"
  | frameBaseUnavailable => "Frame base unavailable"
  | entryValueUnavailable gap => "Entry value unavailable: " ++ gap.text
  | operationUnsupported operation => "Target operation not supported: " ++ operation.text
  | stackUnderflow missing => "Stack underflow executing " ++ missing.text
  | evaluation obstacle => "Evaluation failed: " ++ obstacle.text

/-- Whether a fault says only that some data cannot be had right now. -/
def isUnavailable : Fault → Bool
  | memoryUnavailable .. | registerUnavailable _ | frameUnavailable _ | cfaUnavailable
  | frameBaseUnavailable | entryValueUnavailable _ => true
  | _ => false

end Fault

end FirmwareDebug
