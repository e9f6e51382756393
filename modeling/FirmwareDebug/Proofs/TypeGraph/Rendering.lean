import FirmwareDebug.Proofs.Alike
import FirmwareDebug.Proofs.Layout
import FirmwareDebug.Proofs.TypeGraph.Cycles
import FirmwareDebug.Proofs.TypeGraph.Graph

/-!
# The rendering of types ends

The text of a type and the layout of a value are both written by walks that a type leads around in
circles when it contains itself. Both walks end where every cycle passes an aggregate: the one because it
marks the bodies that it has open, the other because it knows what it lies in. Every mark is taken back,
also when an attribute inside of a body cannot be read.
-/

namespace FirmwareDebug

variable {α β γ : Type}

/-! ## Marks -/

namespace Printing

variable {opened : List Nat} {run other : Printing α} {index : Nat}

/-- Begun with the same bodies open, both end the same, and the same bodies are open as at the start. -/
abbrev AlikeAt (opened : List Nat) (run other : Printing α) : Prop :=
  Alike (fun s t => s = opened ∧ t = opened) (fun _ => True) run other

theorem alikeAt_lift (x : Except Fault α) : AlikeAt opened (liftExcept x) (liftExcept x) :=
  .liftExcept fun _ _ => trivial

theorem alikeAt_insideBody (h : index ∉ opened → AlikeAt (index :: opened) run other) :
    AlikeAt opened (insideBody index run) (insideBody index other) := by
  -- the body is closed again however its writing ends, so only the inside has to leave its marks alone
  rintro _ opened ⟨rfl, rfl⟩
  unfold insideBody
  split
  · exact ⟨rfl, rfl, rfl⟩
  · next hnew =>
    obtain ⟨_, _, _, hrun, hother, rfl, rfl⟩ | ⟨_, _, _, hrun, hother, -, rfl, rfl⟩ := (h hnew _ _ ⟨rfl, rfl⟩).cases
    · rw [hrun, hother]
      exact ⟨rfl, List.erase_cons_head .., List.erase_cons_head ..⟩
    · rw [hrun, hother]
      exact ⟨⟨rfl, trivial⟩, List.erase_cons_head .., List.erase_cons_head ..⟩

/-- Begun with no body open, a writing gives this answer, and no body is open when it ends. -/
def Gives (run : Printing α) (answer : Except Fault α) : Prop :=
  run [] = (liftExcept answer : Printing α) []

namespace Gives

variable {answer : Except Fault α} {f : α → Printing β} {g : α → Except Fault β}

theorem pure (a : α) : Gives (pure a) (pure a) := rfl

theorem lift (x : Except Fault α) : Gives (liftExcept x) x := rfl

theorem bind (h : Gives run answer) (hf : ∀ a, Gives (f a) (g a)) : Gives (run >>= f) (answer >>= g) := by
  unfold Gives at h ⊢
  rw [run_bind, h]
  cases answer with
  | error e => rfl
  | ok a => exact hf a

theorem mapM {step : γ → Printing α} {value : γ → Except Fault α} {l : List γ}
    (h : ∀ c ∈ l, Gives (step c) (value c)) : Gives (l.mapM step) (l.mapM value) := by
  induction l with
  | nil => exact pure []
  | cons c rest ih =>
    obtain ⟨hfirst, hrest⟩ := List.forall_mem_cons.mp h
    rw [List.mapM_cons, List.mapM_cons]
    exact hfirst.bind fun a => (ih hrest).bind fun as => pure (a :: as)

end Gives

theorem gives_of_alikeAt (h : AlikeAt [] run other) : Gives run other.eval := by
  unfold Gives eval
  obtain ⟨_, _, _, hrun, hother, rfl, -⟩ | ⟨_, _, _, hrun, hother, -, rfl, -⟩ := (h [] [] ⟨rfl, rfl⟩).cases
  · rw [hrun, hother]
    rfl
  · rw [hrun, hother]
    rfl

/-- The bodies that are open at the end of a writing that begins with none. -/
def openAfter (run : Printing α) : List Nat :=
  match run [] with
  | .ok _ opened => opened
  | .error _ opened => opened

/--
Begun with no body open, a writing ends with this answer or fault; then no body is open either, and the
same writing gives the same again.
-/
structure EndsClean (run : Printing α) (answer : Except Fault α) : Prop where
  answered : run.eval = answer
  closed : run.openAfter = []
  repeated : run run.openAfter = run []

theorem Gives.endsClean {answer : Except Fault α} (h : Gives run answer) : EndsClean run answer := by
  have hclosed : run.openAfter = [] := by
    unfold openAfter
    rw [h]
    cases answer <;> rfl
  refine ⟨?_, hclosed, by rw [hclosed]⟩
  unfold eval
  rw [h]
  cases answer <;> rfl

end Printing

namespace DebugInfo

open Printing

variable {info : DebugInfo} {nodes : TypeGraph} {node : TypeNode} {index budget : Nat} {opened : List Nat}
  {print other : TypePrinter}

/-! ## The text of a type -/

section

variable (h : ∀ expand index, AlikeAt opened (print expand index) (other expand index))
include h

theorem memberText_alike (expand : Bool) (member : TypeNode) :
    AlikeAt opened (info.memberText print expand member) (info.memberText other expand member) := by
  unfold memberText
  refine (h expand member.next).bind fun type => (alikeAt_lift _).bind fun name => (alikeAt_lift _).bind fun bits => ?_
  cases bits <;> exact .pure _

theorem bodyLine_alike (expand : Bool) (child : Nat) :
    AlikeAt opened (info.bodyLine print nodes expand child) (info.bodyLine other nodes expand child) := by
  unfold bodyLine
  cases nodes[child]? with
  | none => exact .pure none
  | some node =>
    dsimp only
    split
    · exact (memberText_alike h expand node).bind fun line => .pure (some line)
    · split
      · exact (alikeAt_lift _).bind fun line => .pure (some line)
      · exact .pure none

theorem bodyText_alike (expand : Bool) (children : List Nat) :
    AlikeAt opened (info.bodyText print nodes expand children) (info.bodyText other nodes expand children) :=
  (Alike.mapM fun child _ => bodyLine_alike h expand child).bind fun _ => .pure _

end

theorem aggregateText_alike (h : index ∉ opened → ∀ expand next,
      AlikeAt (index :: opened) (print expand next) (other expand next)) (expand : Bool) (keyword : String) :
    AlikeAt opened (info.aggregateText print nodes expand keyword index node)
      (info.aggregateText other nodes expand keyword index node) := by
  unfold aggregateText
  refine (alikeAt_lift _).bind fun name => ?_
  dsimp only
  split
  · exact .pure _
  · refine (alikeAt_insideBody fun hnew => bodyText_alike (h hnew) expand node.children).bind fun body => ?_
    cases body <;> exact .pure _

theorem parametersText_alike {children : List Nat}
    (h : ∀ child ∈ children, AlikeAt opened (print false (some child)) (other false (some child))) :
    AlikeAt opened (parametersText print nodes children) (parametersText other nodes children) := by
  refine (Alike.mapM fun child hchild => ?_).bind fun _ => .pure _
  unfold parameterText
  cases nodes[child]?.map TypeNode.tag with
  | none => exact .pure none
  | some tag =>
    dsimp only
    split
    · exact (h child hchild).bind fun _ => .pure _
    · split <;> exact .pure _

/--
What the text of a node rests on: of an aggregate on what is written while it is open, and of another node
on what it refers to.
-/
theorem nodeDeclarator_alike (hnode : nodes[index]? = some node)
    (hbelow : ¬ nodes.IsAggregate index → ∀ next, (∀ j ∈ next, nodes.Refers index j) →
      ∀ expand, AlikeAt opened (print expand next) (other expand next))
    (hinside : index ∉ opened → ∀ next expand, AlikeAt (index :: opened) (print expand next) (other expand next))
    (expand : Bool) :
    AlikeAt opened (info.nodeDeclarator print nodes expand index node)
      (info.nodeDeclarator other nodes expand index node) := by
  have hbody (keyword : String) : AlikeAt opened (info.aggregateText print nodes expand keyword index node)
      (info.aggregateText other nodes expand keyword index node) :=
    aggregateText_alike (fun hnew expand next => hinside hnew next expand) expand keyword
  have hnext (h : ∀ keyword, node.kind ≠ .aggregate keyword) (expand : Bool) :
      AlikeAt opened (print expand node.next) (other expand node.next) := by
    refine hbelow ?_ node.next (fun j hj => ⟨node, hnode, .inl hj⟩) expand
    exact fun haggregate => ((TypeGraph.isAggregate_iff hnode).mp haggregate).elim h
  unfold nodeDeclarator
  cases hkind : node.kind with
  | base | typedef | unspecified => exact (alikeAt_lift _).bind fun _ => .pure _
  | object | constant | subrange => exact hnext (by simp [hkind]) expand
  | qualifier word => exact (hnext (by simp [hkind]) expand).bind fun _ => .pure _
  | pointer sigil => exact (hnext (by simp [hkind]) expand).bind fun _ => .pure _
  | array => exact (hnext (by simp [hkind]) expand).bind fun _ => .pure _
  | subroutine =>
    have hother : ¬ nodes.IsAggregate index := by simp [TypeGraph.isAggregate_iff hnode, hkind]
    refine (hnext (by simp [hkind]) expand).bind fun result => ?_
    refine (parametersText_alike fun child hchild => ?_).bind fun _ => .pure _
    refine hbelow hother (some child) (fun j hj => ?_) false
    cases hj
    exact ⟨node, hnode, .inr hchild⟩
  | aggregate keyword => exact (hbody keyword).bind fun _ => .pure _
  | enumeration => exact (hbody "enum").bind fun _ => .pure _
  | other => exact .throw trivial

/-- One level of the text of a type, with a way to write the nodes that it refers to. -/
def writeLevel (info : DebugInfo) (nodes : TypeGraph) (print : TypePrinter) : TypePrinter := fun expand index =>
  match index.bind fun index => nodes[index]?.map fun node => (index, node) with
  | none => return ⟨"void", ""⟩
  | some (index, node) => info.nodeDeclarator print nodes expand index node

theorem writeLevel_nothing {index : Option Nat} (h : index.bind (nodes[·]?) = none) (expand : Bool) :
    info.writeLevel nodes print expand index = pure ⟨"void", ""⟩ := by
  rw [writeLevel, TypeGraph.lookup_nothing h]

theorem writeLevel_node (hnode : nodes[index]? = some node) (expand : Bool) :
    info.writeLevel nodes print expand (some index) = info.nodeDeclarator print nodes expand index node := by
  rw [writeLevel, TypeGraph.lookup_node hnode]

@[simp]
theorem declaratorFor_succ (budget : Nat) :
    info.declaratorFor nodes (budget + 1) = info.writeLevel nodes (info.declaratorFor nodes budget) := by
  funext expand index
  rw [declaratorFor]
  rfl

/-- Two ways to write types with enough levels agree, whatever they do below these. -/
theorem ways_alike (hcycles : nodes.CyclesPassAggregates) {ways others : Nat → TypePrinter}
    (hways : ∀ budget, ways (budget + 1) = info.writeLevel nodes (ways budget))
    (hothers : ∀ budget, others (budget + 1) = info.writeLevel nodes (others budget)) {budget limit : Nat}
    (hbudget : TypeGraph.depth nodes ≤ budget) (hlimit : TypeGraph.depth nodes ≤ limit) (index : Option Nat) :
    ∀ expand, AlikeAt [] (ways budget expand index) (others limit expand index) := by
  refine hcycles.walk (motive := fun budget limit opened index =>
    ∀ expand, AlikeAt opened (ways budget expand index) (others limit expand index)) ?_ ?_ hbudget hlimit index
  · intro budget limit opened index hnothing expand
    rw [hways, hothers, writeLevel_nothing hnothing, writeLevel_nothing hnothing]
    exact .pure _
  · intro budget limit opened i node hnode hbelow hinside expand
    rw [hways, hothers, writeLevel_node hnode, writeLevel_node hnode]
    exact nodeDeclarator_alike hnode hbelow hinside expand

/-- The text of the type of a node, in one of several ways to write types. -/
def textBy (print : TypePrinter) (expand : Bool) (index : Option Nat) : Printing String := do
  return (← print expand index).text

theorem eval_textBy (print : TypePrinter) (expand : Bool) (index : Option Nat) :
    (textBy print expand index).eval = (do return (← (print expand index).eval).text : Except Fault String) := by
  unfold textBy eval
  rw [run_bind]
  cases print expand index [] <;> rfl

theorem textBy_gives (hcycles : nodes.CyclesPassAggregates) {ways : Nat → TypePrinter}
    (hways : ∀ budget, ways (budget + 1) = info.writeLevel nodes (ways budget)) {budget : Nat}
    (hbudget : TypeGraph.depth nodes ≤ budget) (expand : Bool) (index : Option Nat) :
    Gives (textBy (ways budget) expand index) (textBy (info.declarator nodes) expand index).eval := by
  have halike := ways_alike hcycles hways declaratorFor_succ hbudget le_rfl index expand
  exact gives_of_alikeAt (halike.bind fun _ => .pure _)

/-! ## The layout of a value -/

/--
The layout of a node, by a way to lay out the nodes that it refers to. The text of its type is written
among the same marks as the texts of the types around it.
-/
def markedLayout (info : DebugInfo) (print : TypePrinter)
    (walk : (enclosing : List Nat) → Option Nat → Printing Layout) (nodes : TypeGraph) (enclosing : List Nat)
    (index : Nat) (node : TypeNode) : Printing Layout := do
  let name := (← liftExcept (info.nodeName node)).getD ""
  let shape : Shape := { typeText := ← textBy print false index }
  match node.kind with
  | .object => liftExcept (info.placeMember node.offset name (← walk enclosing node.next))
  | .typedef | .qualifier _ =>
    return { ← walk enclosing node.next with typeText := shape.typeText, name := "" }
  | .base =>
    let size ← liftExcept (info.byteSize node.offset)
    return { shape with size, encoding := ← liftExcept (info.encoding? node.offset) }
  | .pointer _ =>
    let size := (← liftExcept (info.word? node.offset .byteSize)).getD Shape.pointerSize
    let target := node.next.bind fun next => nodes[next]?.map TypeNode.offset
    return { shape with size, target, isPointer := true }
  | .aggregate _ =>
    let shape := { shape with size := ← liftExcept (info.byteSize node.offset) }
    if index ∈ enclosing then
      return { shape with typeText := shape.typeText ++ " " ++ recursionMark, isRecursive := true }
    let member := fun child => walk (index :: enclosing) (some child)
    return { shape with members := ← (node.children.filter (isMember nodes)).mapM member }
  | .enumeration =>
    let size ← liftExcept (info.byteSize node.offset)
    let encoding := some ((← liftExcept (info.encoding? node.offset)).getD .signed)
    return { shape with size, encoding, enumerators := ← liftExcept (info.enumerators nodes node.children) }
  | .array =>
    let element ← walk enclosing node.next
    return { shape.array node.dimensions element.size with members := [element] }
  | .subroutine | .unspecified => return { shape with }
  | .constant | .subrange | .other => throw (.unhandledTag node.tag.code)

/-- One level of the layout of a value, with a way to lay out what its type refers to. -/
def layoutLevel (info : DebugInfo) (nodes : TypeGraph) (print : TypePrinter)
    (walk : (enclosing : List Nat) → Option Nat → Printing Layout) (enclosing : List Nat) (index : Option Nat) :
    Printing Layout :=
  match index.bind fun index => nodes[index]?.map fun node => (index, node) with
  | none => return { typeText := "void" }
  | some (index, node) => info.markedLayout print walk nodes enclosing index node

section

variable {walk : List Nat → Option Nat → Printing Layout} {layout : List Nat → Option Nat → Except Fault Layout}
  {enclosing : List Nat}

theorem markedLayout_gives (hnode : nodes[index]? = some node)
    (htext : Gives (textBy print false index) (info.typeName nodes index))
    (hbelow : ¬ nodes.IsAggregate index → ∀ next, (∀ j ∈ next, nodes.Refers index j) →
      Gives (walk enclosing next) (layout enclosing next))
    (hinside : index ∉ enclosing → ∀ next, Gives (walk (index :: enclosing) next) (layout (index :: enclosing) next)) :
    Gives (info.markedLayout print walk nodes enclosing index node)
      (info.nodeLayout layout nodes enclosing index node) := by
  have hnext (h : ∀ keyword, node.kind ≠ .aggregate keyword) :
      Gives (walk enclosing node.next) (layout enclosing node.next) := by
    refine hbelow ?_ node.next fun j hj => ⟨node, hnode, .inl hj⟩
    exact fun haggregate => ((TypeGraph.isAggregate_iff hnode).mp haggregate).elim h
  unfold markedLayout nodeLayout
  refine (Gives.lift _).bind fun name => htext.bind fun typeText => ?_
  cases hkind : node.kind with
  | object => exact (hnext (by simp [hkind])).bind fun _ => .lift _
  | typedef | qualifier _ => exact (hnext (by simp [hkind])).bind fun _ => .pure _
  | base => exact (Gives.lift _).bind fun _ => (Gives.lift _).bind fun _ => .pure _
  | pointer _ => exact (Gives.lift _).bind fun _ => .pure _
  | aggregate keyword =>
    refine (Gives.lift _).bind fun size => ?_
    dsimp only
    split
    · exact .pure _
    · next hnew =>
      rw [memberLayouts_eq]
      exact (Gives.mapM fun child _ => hinside hnew (some child)).bind fun _ => .pure _
  | enumeration =>
    exact (Gives.lift _).bind fun _ => (Gives.lift _).bind fun _ => (Gives.lift _).bind fun _ => .pure _
  | array => exact (hnext (by simp [hkind])).bind fun _ => .pure _
  | subroutine | unspecified => exact .pure _
  | constant | subrange | other => exact .lift (.error _)

theorem walks_give (hcycles : nodes.CyclesPassAggregates)
    (htext : ∀ index, Gives (textBy print false index) (info.typeName nodes index))
    {walks : Nat → List Nat → Option Nat → Printing Layout}
    (hwalks : ∀ budget, walks (budget + 1) = info.layoutLevel nodes print (walks budget)) {budget : Nat}
    (hbudget : TypeGraph.depth nodes ≤ budget) (root : Nat) :
    Gives (walks budget [] (some root)) (info.layoutOf nodes root) := by
  refine hcycles.walk (motive := fun budget limit enclosing index =>
    Gives (walks budget enclosing index) (info.layoutFor nodes limit enclosing index)) ?_ ?_ hbudget le_rfl (some root)
  · intro budget limit enclosing index hnothing
    rw [hwalks]
    unfold layoutLevel layoutFor
    rw [TypeGraph.lookup_nothing hnothing]
    exact .pure _
  · intro budget limit enclosing i node hnode hbelow hinside
    rw [hwalks]
    unfold layoutLevel layoutFor
    rw [TypeGraph.lookup_node hnode]
    exact markedLayout_gives hnode (htext i) hbelow hinside

end

/--
The rendering of types ends where every cycle passes an aggregate: what is done below a depth that the
number of nodes bounds does not matter, for the texts of types and for the layouts of values, whose walk
writes the text of a type at every node. However such a rendering ends, no body is marked as open after
it, so that it can be repeated.
-/
theorem rendering_endsClean (info : DebugInfo) {nodes : TypeGraph} (hcycles : nodes.CyclesPassAggregates)
    {ways : Nat → TypePrinter} (hways : ∀ budget, ways (budget + 1) = info.writeLevel nodes (ways budget))
    {budget : Nat} (hbudget : TypeGraph.depth nodes ≤ budget) :
    (∀ root, EndsClean (textBy (ways budget) true (some root)) (info.typeText nodes root)) ∧
    (∀ index, EndsClean (textBy (ways budget) false index) (info.typeName nodes index)) ∧
    ∀ walks : Nat → List Nat → Option Nat → Printing Layout,
      (∀ limit, walks (limit + 1) = info.layoutLevel nodes (ways budget) (walks limit)) →
      ∀ limit, TypeGraph.depth nodes ≤ limit → ∀ root,
        EndsClean (walks limit [] (some root)) (info.layoutOf nodes root) := by
  have htext (expand : Bool) (index : Option Nat) :
      Gives (textBy (ways budget) expand index) (textBy (info.declarator nodes) expand index).eval :=
    textBy_gives hcycles hways hbudget expand index
  have hname (index : Option Nat) : Gives (textBy (ways budget) false index) (info.typeName nodes index) := by
    have hgives := htext false index
    rwa [eval_textBy] at hgives
  refine ⟨fun root => ?_, fun index => (hname index).endsClean, fun walks hwalks limit hlimit root => ?_⟩
  · have hgives := htext true root
    rw [eval_textBy] at hgives
    exact hgives.endsClean
  · exact (walks_give hcycles hname hwalks hlimit root).endsClean

/-- The layout of a node that lies at most `budget` levels deep, with one set of marks for all texts in it. -/
def markedLayoutFor (info : DebugInfo) (nodes : TypeGraph) (print : TypePrinter) :
    (budget : Nat) → List Nat → Option Nat → Printing Layout
  | 0 => fun _ _ => return {}
  | budget + 1 => info.layoutLevel nodes print (info.markedLayoutFor nodes print budget)

/-- A structure with a pointer to itself, and with a member whose type is a label. -/
def strayLabel : Sections where
  info := #[29, 0, 0, 0, 4, 0, 0, 0, 0, 0, 4, 1, 2, 115, 0, 3, 26, 0, 0, 0, 3, 31, 0, 0, 0, 0, 4, 12, 0, 0, 0, 5, 0]
  abbreviations := #[1, 0x11, 1, 0, 0, 2, 0x13, 1, 3, 8, 0, 0, 3, 0x0d, 0, 0x49, 0x13, 0, 0, 4, 0x0f, 0, 0x49, 0x13,
    0, 0, 5, 0x0a, 0, 0, 0, 0]

theorem texts_strayLabel : (build strayLabel).toOption.bind (fun info => (info.typeGraph 12).toOption.map fun nodes =>
    (nodes.toList.map fun node => (node.kind, node.next, node.children), (info.typeText nodes 0).toOption,
      (info.typeName nodes (some 2)).toOption)) =
    some ([(.aggregate "struct", none, [1, 3]), (.object, some 2, []), (.pointer "*", some 0, []),
      (.object, some 4, []), (.other, none, [])], none, some "struct s *") := by
  decide +kernel

theorem cyclesPassAggregates_strayLabel {nodes : TypeGraph}
    (h : (nodes.toList.map fun node => (node.kind, node.next, node.children)) =
      [(.aggregate "struct", none, [1, 3]), (.object, some 2, []), (.pointer "*", some 0, []), (.object, some 4, []),
        (.other, none, [])]) : nodes.CyclesPassAggregates := by
  have hshape (i : Nat) := congrArg (·[i]?) h
  simp only [List.getElem?_map, Array.getElem?_toList] at hshape
  have hroot : nodes.IsAggregate 0 := by
    obtain ⟨node, hnode, hparts⟩ := Option.map_eq_some_iff.mp (hshape 0)
    exact (TypeGraph.isAggregate_iff hnode).mpr ⟨"struct", (Prod.mk.inj hparts).1⟩
  -- the members lead on to nodes behind them, and the pointer back to the structure
  refine TypeGraph.cyclesPassAggregates_of_rank (fun i => 5 - i) ?_
  rintro i j ⟨⟨node, hnode, hrefers⟩, hfrom⟩ hto
  have hparts := hshape i
  rw [hnode, Option.map_some] at hparts
  rcases i with _ | _ | _ | _ | _ | i <;> simp at hparts <;> grind

theorem endsClean_strayLabel : ∃ info nodes, build strayLabel = .ok info ∧ info.typeGraph 12 = .ok nodes ∧
    nodes.CyclesPassAggregates ∧ (info.typeText nodes 0).toOption = none ∧
    EndsClean (textBy (info.declaratorFor nodes 36) true (some 0)) (info.typeText nodes 0) ∧
    EndsClean (textBy (info.declaratorFor nodes 36) false (some 2)) (.ok "struct s *") ∧
    EndsClean (info.markedLayoutFor nodes (info.declaratorFor nodes 36) 36 [] (some 0)) (info.layoutOf nodes 0) := by
  obtain ⟨info, hinfo, hgraph⟩ := Option.bind_eq_some_iff.mp texts_strayLabel
  obtain ⟨nodes, hnodes, hfacts⟩ := Option.map_eq_some_iff.mp hgraph
  obtain ⟨hshape, htexts⟩ := Prod.mk.inj hfacts
  obtain ⟨hfails, hname⟩ := Prod.mk.inj htexts
  have hcycles := cyclesPassAggregates_strayLabel hshape
  have hdepth : TypeGraph.depth nodes ≤ 36 := by
    have hsize := congrArg List.length hshape
    rw [List.length_map, Array.length_toList] at hsize
    rw [TypeGraph.depth, hsize]
    decide
  obtain ⟨htext, hnames, hlayouts⟩ := rendering_endsClean info hcycles declaratorFor_succ hdepth
  refine ⟨info, nodes, ok_of_toOption hinfo, ok_of_toOption hnodes, hcycles, hfails, htext 0, ?_, ?_⟩
  · exact ok_of_toOption hname ▸ hnames (some 2)
  · exact hlayouts (info.markedLayoutFor nodes (info.declaratorFor nodes 36)) (fun _ => rfl) 36 hdepth 0

end DebugInfo

end FirmwareDebug
