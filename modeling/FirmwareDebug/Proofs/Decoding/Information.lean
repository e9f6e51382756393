import FirmwareDebug.Evaluate
import FirmwareDebug.Layout
import FirmwareDebug.Proofs.Decoding.Sections
import FirmwareDebug.SourceLine

/-!
# What questions to debug information fail with

All that is read off an index of entries fails with faults that last: attributes, trees, scopes, source
lines, programs and types.
-/

namespace FirmwareDebug

set_option synthInstance.maxSize 20000

namespace Expression

instance (info : DebugInfo) (unit : UInt32) (operation : Operation) :
    Decodes (compileOperation info unit operation) := by
  unfold compileOperation
  split
  all_goals try infer_instance
  split <;> infer_instance

end Expression

namespace DebugInfo

instance (sections : Sections) : Decodes (build sections) := by
  unfold build
  infer_instance

variable (info : DebugInfo) (offset : UInt32) (name : AttributeName) (pc : UInt32)

/-! ## Units and attributes -/

instance : Decodes (info.unitAt offset) := by
  unfold unitAt
  split <;> infer_instance

instance : Decoding (info.unitNumberCovering pc) := by
  unfold unitNumberCovering
  infer_instance

instance : Decoding (info.unitCovering pc) := by
  unfold unitCovering
  infer_instance

instance : Decodes (info.attributes offset) := by
  unfold attributes
  infer_instance

instance : Decodes (info.attribute? offset name) := by
  unfold attribute?
  infer_instance

instance : Decodes (info.reference? offset name) := by
  unfold reference?
  refine .andThen fun value => ?_
  split <;> infer_instance

instance : Decodes (info.constant? offset name) := by
  unfold constant?
  infer_instance

instance : Decodes (info.flag offset name) := by
  unfold flag
  infer_instance

instance : Decodes (info.text? offset name) := by
  unfold text?
  refine .andThen fun value => ?_
  split <;> infer_instance

instance (bases : UnitBases) (low : Option UInt32) (high : Option AttributeValue) (attributes : List Attribute) :
    Decodes (info.addressesFrom bases low high attributes) := by
  induction attributes generalizing low high with
  | nil =>
    unfold addressesFrom
    split <;> infer_instance
  | cons a rest ih =>
    unfold addressesFrom
    infer_instance

instance : Decodes (info.addressesOf offset) := by
  unfold addressesOf
  infer_instance

/-! ## Trees -/

instance (parent : UInt32) : Lasting (openChildren parent) := ⟨rfl⟩

instance (parent : UInt32) (budget opened position : Nat) :
    Decodes (info.closeAfter parent budget opened position) := by
  induction budget generalizing opened position with
  | zero =>
    unfold closeAfter
    infer_instance
  | succ budget ih =>
    unfold closeAfter
    split
    · infer_instance
    · split <;> infer_instance
    · infer_instance

instance (entry : UInt32) (a : Abbreviation) (position : Nat) :
    Decodes (info.siblingPosition entry a position) := by
  unfold siblingPosition
  infer_instance

instance (entry : UInt32) (a : Abbreviation) (position : Nat) : Decodes (info.passChildren entry a position) := by
  unfold passChildren
  refine .andThen fun next => ?_
  split <;> infer_instance

instance (budget : Nat) (parent : UInt32) (levels : Option Nat) (position : Nat) :
    Decodes (info.childrenFrom budget parent levels position) := by
  induction budget generalizing parent levels position with
  | zero =>
    unfold childrenFrom
    infer_instance
  | succ budget ih =>
    unfold childrenFrom
    split
    · infer_instance
    · infer_instance
    · split
      · infer_instance
      · split <;> infer_instance

instance (levels : Option Nat) : Decodes (info.treeAt offset levels) := by
  unfold treeAt
  refine .andThen fun found => ?_
  dsimp only
  split
  · infer_instance
  · split <;> infer_instance

instance : Decodes (info.entryAt offset) := by
  unfold entryAt
  infer_instance

instance : Decodes (info.childrenOf offset) := by
  unfold childrenOf
  infer_instance

/-! ## Origins -/

instance : Lasting (ownOrigin offset) := ⟨rfl⟩

instance : Decodes (info.origin? offset) := by
  unfold origin?
  refine .andThen fun origin => ?_
  split <;> infer_instance

instance (steps : Nat) : Decodes (info.originAttributeFor name steps offset) := by
  induction steps generalizing offset with
  | zero =>
    unfold originAttributeFor
    infer_instance
  | succ steps ih =>
    unfold originAttributeFor
    refine .andThen fun value => ?_
    split
    · infer_instance
    · refine .andThen fun origin => ?_
      split <;> infer_instance

instance : Decodes (info.originAttribute offset name) := by
  unfold originAttribute
  infer_instance

instance (steps : Nat) : Decodes (info.originReferenceFor name steps offset) := by
  induction steps generalizing offset with
  | zero =>
    unfold originReferenceFor
    infer_instance
  | succ steps ih =>
    unfold originReferenceFor
    refine .andThen fun value => ?_
    split
    · infer_instance
    · refine .andThen fun origin => ?_
      split <;> infer_instance

instance : Decodes (info.originReference offset name) := by
  unfold originReference
  infer_instance

instance : Decodes (info.originConstant offset name) := by
  unfold originConstant
  infer_instance

instance : Decodes (info.nameOf offset) := by
  unfold nameOf
  refine .andThen fun value => ?_
  split <;> infer_instance

end DebugInfo

/-! ## Compiled expressions -/

namespace Expression

namespace CompiledWords

/-- If the words were given up, it was for a fault that lasts. -/
def EndsLasting (t : CompiledWords) : Prop :=
  match t.ending with
  | .complete => True
  | .refused _ e => Lasting e
  | .failed e => Lasting e

theorem endsLasting_failed (e : Fault) [h : Lasting e] : (failed e).EndsLasting := h

instance (c : Cursor) (target : Option Nat) : Decodes (closeHere c target) := by
  unfold closeHere
  split <;> infer_instance

theorem endsLasting_fromCursor (info : DebugInfo) (unit : UInt32) (budget : Nat) (target : Option Nat)
    (c : Cursor) : (fromCursor info unit budget target c).EndsLasting := by
  induction budget generalizing target c with
  | zero => exact endsLasting_failed c.endFault
  | succ budget ih =>
    unfold fromCursor
    split
    · unfold atEnd
      split
      · trivial
      · split
        · trivial
        · exact endsLasting_failed _
    · split
      case h_1 e hclose =>
        have := Decodes.lasting e hclose
        exact endsLasting_failed e
      case h_2 closing target _ =>
        split
        case h_1 e _ hread =>
          have := Decoding.lasting hread
          exact endsLasting_failed e
        case h_2 opcode operation next _ =>
          split
          case h_1 e hcompile =>
            have := Decodes.lasting e hcompile
            exact endsLasting_failed e
          case h_2 => exact ih target next
          case h_3 => exact (inferInstance : Lasting (.unsupportedOpcode opcode c.position))
          case h_4 displacement _ =>
            split
            · exact (inferInstance : Lasting (.negativeBranch displacement))
            · split
              · exact (inferInstance : Lasting .nestedBranch)
              · exact ih _ next

instance (info : DebugInfo) (mode : Mode) (unit : UInt32) (expression : List UInt8) :
    Decodes (compile info mode unit expression) := by
  have hend := endsLasting_fromCursor info unit (expression.length + 1) none
    (.place region expression.toArray 0)
  unfold EndsLasting at hend
  unfold compile compiledWords program
  split
  case h_1 => infer_instance
  case h_2 e hfailed =>
    rw [hfailed] at hend
    infer_instance
  case h_3 e hrefused =>
    rw [hrefused] at hend
    infer_instance
  case h_4 => infer_instance

end CompiledWords

end Expression

namespace DebugInfo

variable (info : DebugInfo) (offset : UInt32) (name : AttributeName) (pc : UInt32)

/-! ## Scopes and objects -/

instance (entry : Entry) : Decodes (info.scopeCovers pc entry) := by
  unfold scopeCovers
  infer_instance

instance (budget : Nat) : Decodes (info.scopesWithin pc budget offset) := by
  induction budget generalizing offset with
  | zero =>
    unfold scopesWithin
    infer_instance
  | succ budget ih =>
    unfold scopesWithin
    refine .andThen fun children => .andThen fun scope => ?_
    split <;> infer_instance

instance (unit : UnitSummary) : Decodes (info.contextIn unit pc) := by
  unfold contextIn
  infer_instance

instance : Decoding (info.contextAt pc) := by
  unfold contextAt
  refine .andThen fun unit => ?_
  split <;> infer_instance

instance : Decodes (info.returnAddressOf offset) := by
  unfold returnAddressOf
  refine .andThen fun unit => .andThen fun value => ?_
  split
  all_goals
    refine .andThen fun value => ?_
    dsimp only
    split <;> infer_instance

instance (entry : Entry) : Decodes (info.returnsTo pc entry) := by
  unfold returnsTo
  infer_instance

instance (scope : Entry) : Decodes (info.callBelow pc scope) := by
  unfold callBelow
  infer_instance

instance (scopes : List Entry) : Decodes (info.callBelowAny pc scopes) := by
  induction scopes with
  | nil =>
    unfold callBelowAny
    infer_instance
  | cons scope rest ih =>
    unfold callBelowAny
    refine .andThen fun site => ?_
    split <;> infer_instance

instance : Decoding (info.callReturningTo pc) := by
  unfold callReturningTo
  infer_instance

instance (entry : Entry) : Decodes (info.dataObject entry) := by
  unfold dataObject
  infer_instance

instance (scope : Entry) : Decodes (info.objectsOfScope scope) := by
  unfold objectsOfScope
  infer_instance

instance (context : Context) : Decodes (info.localObjects context) := by
  unfold localObjects
  infer_instance

instance (unit : UnitSummary) : Decodes (info.staticObjectsOf unit) := by
  unfold staticObjectsOf
  infer_instance

instance : Decodes info.staticObjects := by
  unfold staticObjects
  infer_instance

instance : Decodes (info.function? offset) := by
  unfold function?
  refine .andThen fun range => ?_
  split <;> infer_instance

instance : Decodes info.functions := by
  unfold functions
  infer_instance

instance (value : AttributeValue) : Decodes (info.locationProgram offset value pc) := by
  unfold locationProgram
  refine .andThen fun unit => .andThen fun expression => ?_
  split <;> infer_instance

instance (context : Context) : Decodes (info.frameBaseProgram context pc) := by
  unfold frameBaseProgram
  split
  · infer_instance
  · refine .andThen fun value => ?_
    split <;> infer_instance

instance (object : DataObject) : Decodes (info.objectProgram object pc) := by
  unfold objectProgram
  split <;> infer_instance

instance (register : UInt32) (parameter : Entry) : Decodes (info.argumentExpression? register parameter) := by
  unfold argumentExpression?
  split
  · infer_instance
  · refine .andThen fun location => ?_
    split
    · infer_instance
    · refine .andThen fun value => ?_
      split <;> infer_instance

instance (register : UInt32) (parameters : List Entry) : Decodes (info.argumentIn register parameters) := by
  induction parameters with
  | nil =>
    unfold argumentIn
    infer_instance
  | cons parameter rest ih =>
    unfold argumentIn
    refine .andThen fun expression => ?_
    split <;> infer_instance

/-! ## Source lines -/

instance (unit : UnitSummary) : Decodes (info.lineTable unit) := by
  unfold lineTable
  split <;> infer_instance

instance (unit : UnitSummary) : Decodes (info.sourceLineIn unit pc) := by
  unfold sourceLineIn
  refine .andThen fun table => ?_
  split <;> infer_instance

instance : Decoding (info.sourceLineOf pc) := by
  unfold sourceLineOf
  refine .andThen fun unit => ?_
  split <;> infer_instance

instance : Decodes (info.declarationOf offset) := by
  unfold declarationOf
  refine .andThen fun file => .andThen fun line => ?_
  split <;> infer_instance

instance {α : Type} {f : LineTable → Except Fault (List α)} [∀ table, Decodes (f table)] :
    Decodes (info.fromLineTables f) := by
  have hunit (unit : UnitSummary) : Decodes (do
      match ← info.lineTable unit with
      | none => return []
      | some table => f table) := by
    refine .andThen fun table => ?_
    split <;> infer_instance
  unfold fromLineTables
  infer_instance

instance (file : String) (line : UInt32) : Decodes (info.addressesOfLine file line) := by
  unfold addressesOfLine
  infer_instance

instance : Decodes info.sourceFiles := by
  unfold sourceFiles
  infer_instance

/-! ## Types -/

instance (names : List AttributeName) : Decodes (info.firstReference offset names) := by
  induction names with
  | nil =>
    unfold firstReference
    infer_instance
  | cons name rest ih =>
    unfold firstReference
    refine .andThen fun reference => ?_
    split <;> infer_instance

instance : Lasting (originsTooDeep offset) := ⟨rfl⟩

instance (start : UInt32) (steps : Nat) : Decodes (info.definitionFor start steps offset) := by
  induction steps generalizing offset with
  | zero =>
    unfold definitionFor
    infer_instance
  | succ steps ih =>
    unfold definitionFor
    refine .andThen fun next => ?_
    split <;> infer_instance

instance : Decodes (info.definitionOf offset) := by
  unfold definitionOf
  infer_instance

instance : Decodes (info.dimensionOf offset) := by
  have hbound (unit : UnitSummary) (bound : Option (AttributeValue × UInt32)) : Decodes (match bound with
      | none => return .flexible
      | some (value, last) =>
        match value.reference? unit.header.offset with
        | some offset => return .keptIn offset
        | none => return extentOf value last : Except Fault ArrayDimension) := by
    split
    · infer_instance
    · split <;> infer_instance
  unfold dimensionOf
  refine .andThen fun unit => .andThen fun value => ?_
  split
  · exact .andThen fun bound => hbound unit bound
  · exact .andThen fun count => .andThen fun bound => hbound unit bound

section

open TypeRead

instance (index : Nat) : Decoding (remember offset index) := by
  unfold remember
  infer_instance

instance : Decoding forget := by
  unfold forget
  infer_instance

instance (entry : Entry) : Decoding (addNode entry) := by
  unfold addNode
  infer_instance

instance (index : Nat) (change : TypeNode → TypeNode) : Decoding (changeNode index change) := by
  unfold changeNode
  infer_instance

end

section

variable {read : UInt32 → TypeRead Nat} [∀ offset, Decoding (read offset)]

instance (parent : Nat) : Decoding (info.readChild read parent offset) := by
  unfold readChild
  infer_instance

instance : Decoding (info.readNode read offset) := by
  unfold readNode
  refine .andThen fun entry => .andThen fun index => .andThen fun type => ?_
  split <;> infer_instance

end

instance (budget : Nat) : Decoding (info.readTypeFor budget offset) := by
  induction budget generalizing offset with
  | zero =>
    unfold readTypeFor
    infer_instance
  | succ budget ih =>
    unfold readTypeFor
    refine .andThen fun reading => ?_
    split <;> infer_instance

instance : Decoding (info.readType offset) := by
  unfold readType
  infer_instance

instance : Decoding (info.readTypeAfresh offset) := by
  unfold readTypeAfresh
  infer_instance

instance : Decodes (info.typeGraph offset) := by
  unfold typeGraph
  split
  · infer_instance
  · have := Decoding.lasting ‹_›
    infer_instance

/-! ## Declarators and layouts -/

instance (node : TypeNode) : Lasting (endlessType node) := ⟨rfl⟩

variable (nodes : TypeGraph) (node : TypeNode) (expand : Bool) (index : Option Nat)

instance {α : Type} {number : Nat} {body : Printing α} [h : Decoding body] :
    Decoding (Printing.insideBody number body) := by
  refine .of_lasting fun opened e last hrun => ?_
  unfold Printing.insideBody at hrun
  split at hrun
  · cases hrun
  · split at hrun <;> cases hrun
    exact h.lasting ‹_›

instance {α : Type} {print : Printing α} [h : Decoding print] : Decodes print.eval := by
  unfold Printing.eval
  split
  · infer_instance
  · have := h.lasting ‹_›
    infer_instance

instance : Decodes (info.nodeName node) := by
  unfold nodeName
  infer_instance

instance : Decodes (info.enumeratorValue offset) := by
  unfold enumeratorValue
  infer_instance

instance : Decodes (info.enumeratorText node) := by
  unfold enumeratorText
  refine .andThen fun name => .andThen fun value => ?_
  split <;> infer_instance

section

variable {print : TypePrinter} [∀ expand index, Decoding (print expand index)]

instance (child : Nat) : Decoding (parameterText print nodes child) := by
  unfold parameterText
  split <;> infer_instance

instance (children : List Nat) : Decoding (parametersText print nodes children) := by
  unfold parametersText
  infer_instance

instance : Decoding (info.memberText print expand node) := by
  unfold memberText
  refine .andThen fun type => .andThen fun name => .andThen fun bits => ?_
  split <;> infer_instance

instance (child : Nat) : Decoding (info.bodyLine print nodes expand child) := by
  unfold bodyLine
  split <;> infer_instance

instance (children : List Nat) : Decoding (info.bodyText print nodes expand children) := by
  unfold bodyText
  infer_instance

instance (keyword : String) (number : Nat) : Decoding (info.aggregateText print nodes expand keyword number node) := by
  unfold aggregateText
  refine .andThen fun name => ?_
  dsimp only
  split
  · infer_instance
  · refine .andThen fun body => ?_
    split <;> infer_instance

instance (number : Nat) : Decoding (info.nodeDeclarator print nodes expand number node) := by
  unfold nodeDeclarator
  split <;> infer_instance

end

instance (budget : Nat) : Decoding (info.declaratorFor nodes budget expand index) := by
  induction budget generalizing expand index with
  | zero =>
    unfold declaratorFor
    split <;> infer_instance
  | succ budget ih =>
    unfold declaratorFor
    split <;> infer_instance

instance : Decoding (info.declarator nodes expand index) := by
  unfold declarator
  infer_instance

instance (number : Nat) : Decodes (info.typeText nodes number) := by
  unfold typeText
  infer_instance

instance : Decodes (info.typeName nodes index) := by
  unfold typeName
  infer_instance

instance : Decodes (info.word? offset name) := by
  unfold word?
  infer_instance

instance : Decodes (info.byteSize offset) := by
  unfold byteSize
  infer_instance

instance : Decodes (info.encoding? offset) := by
  unfold encoding?
  infer_instance

instance (block : List UInt8) : Decodes (memberOffsetOf block) := by
  unfold memberOffsetOf
  infer_instance

instance : Decodes (info.memberOffset offset) := by
  unfold memberOffset
  refine .andThen fun value => ?_
  split
  · infer_instance
  · split <;> infer_instance

instance (bitSize : UInt32) (shape : Shape) : Decodes (info.placeBitField offset bitSize shape) := by
  unfold placeBitField
  refine .andThen fun storage => .andThen fun bitOffset => ?_
  split
  · infer_instance
  · refine .andThen fun bitOffset => ?_
    split <;> infer_instance

instance (text : String) (layout : Layout) : Decodes (info.placeMember offset text layout) := by
  unfold placeMember
  refine .andThen fun memberOffset => .andThen fun bitSize => ?_
  split <;> infer_instance

instance (children : List Nat) : Decodes (info.enumerators nodes children) := by
  induction children with
  | nil =>
    unfold enumerators
    infer_instance
  | cons child rest ih =>
    unfold enumerators
    split <;> infer_instance

instance {layout : Nat → Except Fault Layout} [∀ child, Decodes (layout child)] (children : List Nat) :
    Decodes (memberLayouts layout nodes children) := by
  induction children with
  | nil =>
    unfold memberLayouts
    infer_instance
  | cons child rest ih =>
    unfold memberLayouts
    infer_instance

instance {layout : List Nat → Option Nat → Except Fault Layout} [∀ enclosing index, Decodes (layout enclosing index)]
    (enclosing : List Nat) (number : Nat) : Decodes (info.nodeLayout layout nodes enclosing number node) := by
  unfold nodeLayout
  refine .andThen fun nodeName => .andThen fun typeName => ?_
  dsimp only
  split <;> infer_instance

instance (budget : Nat) (enclosing : List Nat) : Decodes (info.layoutFor nodes budget enclosing index) := by
  induction budget generalizing enclosing index with
  | zero =>
    unfold layoutFor
    split <;> infer_instance
  | succ budget ih =>
    unfold layoutFor
    split <;> infer_instance

instance (number : Nat) : Decodes (info.layoutOf nodes number) := by
  unfold layoutOf
  infer_instance

end DebugInfo

end FirmwareDebug
