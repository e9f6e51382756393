import FirmwareDebug.Abbreviation

/-! # Tags, attributes and encodings that the library knows -/

namespace FirmwareDebug

namespace Tag

def null : Tag := ⟨0x00⟩
def arrayType : Tag := ⟨0x01⟩
def classType : Tag := ⟨0x02⟩
def enumerationType : Tag := ⟨0x04⟩
def formalParameter : Tag := ⟨0x05⟩
def lexicalBlock : Tag := ⟨0x0b⟩
def member : Tag := ⟨0x0d⟩
def pointerType : Tag := ⟨0x0f⟩
def referenceType : Tag := ⟨0x10⟩
def compileUnit : Tag := ⟨0x11⟩
def structureType : Tag := ⟨0x13⟩
def subroutineType : Tag := ⟨0x15⟩
def typedef : Tag := ⟨0x16⟩
def unionType : Tag := ⟨0x17⟩
def unspecifiedParameters : Tag := ⟨0x18⟩
def inlinedSubroutine : Tag := ⟨0x1d⟩
def pointerToMemberType : Tag := ⟨0x1f⟩
def subrangeType : Tag := ⟨0x21⟩
def baseType : Tag := ⟨0x24⟩
def constType : Tag := ⟨0x26⟩
def constant : Tag := ⟨0x27⟩
def enumerator : Tag := ⟨0x28⟩
def subprogram : Tag := ⟨0x2e⟩
def dataVariable : Tag := ⟨0x34⟩
def volatileType : Tag := ⟨0x35⟩
def restrictType : Tag := ⟨0x37⟩
def unspecifiedType : Tag := ⟨0x3b⟩
def rvalueReferenceType : Tag := ⟨0x42⟩
def atomicType : Tag := ⟨0x47⟩
def callSite : Tag := ⟨0x48⟩
def callSiteParameter : Tag := ⟨0x49⟩
def gnuCallSite : Tag := ⟨0x4109⟩
def gnuCallSiteParameter : Tag := ⟨0x410a⟩

end Tag

namespace AttributeName

def sibling : AttributeName := ⟨0x01⟩
def location : AttributeName := ⟨0x02⟩
def name : AttributeName := ⟨0x03⟩
def byteSize : AttributeName := ⟨0x0b⟩
def bitOffset : AttributeName := ⟨0x0c⟩
def bitSize : AttributeName := ⟨0x0d⟩
def statementList : AttributeName := ⟨0x10⟩
def lowPc : AttributeName := ⟨0x11⟩
def highPc : AttributeName := ⟨0x12⟩
def language : AttributeName := ⟨0x13⟩
def imported : AttributeName := ⟨0x18⟩
def compilationDirectory : AttributeName := ⟨0x1b⟩
def constValue : AttributeName := ⟨0x1c⟩
def producer : AttributeName := ⟨0x25⟩
def upperBound : AttributeName := ⟨0x2f⟩
def abstractOrigin : AttributeName := ⟨0x31⟩
def count : AttributeName := ⟨0x37⟩
def memberLocation : AttributeName := ⟨0x38⟩
def declarationColumn : AttributeName := ⟨0x39⟩
def declarationFile : AttributeName := ⟨0x3a⟩
def declarationLine : AttributeName := ⟨0x3b⟩
def encoding : AttributeName := ⟨0x3e⟩
def frameBase : AttributeName := ⟨0x40⟩
def specification : AttributeName := ⟨0x47⟩
def type : AttributeName := ⟨0x49⟩
def ranges : AttributeName := ⟨0x55⟩
/-- A place of bits that counts from the lowest bit of an aggregate. -/
def dataBitOffset : AttributeName := ⟨0x6b⟩
def textOffsetsBase : AttributeName := ⟨0x72⟩
def addressBase : AttributeName := ⟨0x73⟩
def rangeListsBase : AttributeName := ⟨0x74⟩
def callReturnPc : AttributeName := ⟨0x7d⟩
def callValue : AttributeName := ⟨0x7e⟩
def locationListsBase : AttributeName := ⟨0x8c⟩
def gnuCallSiteValue : AttributeName := ⟨0x2111⟩
def gnuAddressBase : AttributeName := ⟨0x2133⟩

end AttributeName

/-- How the bytes of a base type are to be read. -/
structure BaseEncoding where
  code : UInt8
  deriving DecidableEq, Repr

namespace BaseEncoding

def boolean : BaseEncoding := ⟨2⟩
def float : BaseEncoding := ⟨4⟩
def signed : BaseEncoding := ⟨5⟩
def signedChar : BaseEncoding := ⟨6⟩
def unsigned : BaseEncoding := ⟨7⟩
def unsignedChar : BaseEncoding := ⟨8⟩

end BaseEncoding

end FirmwareDebug
