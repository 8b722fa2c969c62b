import BlockLoom.Content.Export
import BlockLoom.Proofs.Content.Body
import BlockLoom.Proofs.Content.Grouping

/-!
What the element for a node holds. Every binding of a node goes to one place: the
one for all styles to the paths of single styles, and any other to the actions if
its name is that of a handler and to the path of a property or an option if not.
-/

namespace BlockLoom.Content

def fieldSpace (node : Node) (key : String) : Namespace :=
  if isProperty node key then .properties else .options

/-- Whether a binding of a node is written under its own name. -/
def isWritten (node : Node) (entry : String × Binding) : Bool :=
  decide (entry.1 ≠ styleKey) && !(Fields.has node.slots entry.1 || entry.2.isSpread)

def stylesOf (node : Node) (entry : String × Binding) : Style.Parts :=
  if entry.1 = styleKey then
    Style.split entry.2.code (Fields.get? node.metadata literalStylesKey)
  else {}

/-- The action that a binding is written as. -/
def actionOf (node : Node) (entry : String × Binding) : Fields String :=
  match Event.ofHandler? entry.1 with
  | some event => if isWritten node entry then [(event, entry.2.code)] else []
  | none => []

/-- The path that a binding is written as. -/
def pathOf (node : Node) (entry : String × Binding) : Fields String :=
  match Event.ofHandler? entry.1 with
  | some _ => []
  | none =>
    if isWritten node entry then [((fieldSpace node entry.1).path entry.1, entry.2.code)] else []

def addStylesOf (node : Node) (styles : Option Style.Literals) (entry : String × Binding) :
    Option Style.Literals :=
  let literals := (stylesOf node entry).literals
  if literals.isEmpty then styles else some literals

/-- A binding adds to the paths, the styles and the actions of an element and to
nothing else. -/
theorem exportBinding_eq (node : Node) (element : Element) (entry : String × Binding) :
    exportBinding node element entry =
      { element with
        bindings := Fields.merge element.bindings ((stylesOf node entry).bindings ++
          pathOf node entry)
        styles := addStylesOf node element.styles entry
        actions := Fields.merge element.actions (actionOf node entry) } := by
  obtain ⟨key, binding⟩ := entry
  rw [exportBinding]
  by_cases style : key = styleKey
  · subst style
    have noHandler : Event.ofHandler? styleKey = none := rfl
    have unwritten : isWritten node (styleKey, binding) = false := rfl
    simp [stylesOf, pathOf, actionOf, addStylesOf, noHandler, unwritten]
  · have noStyles : stylesOf node (key, binding) = {} := if_neg style
    cases hidden : Fields.has node.slots key || binding.isSpread with
    | true =>
      have unwritten : isWritten node (key, binding) = false := by
        rw [isWritten, hidden, Bool.not_true, Bool.and_false]
      cases element
      cases handler : Event.ofHandler? key <;>
        simp [style, noStyles, pathOf, actionOf, addStylesOf, unwritten, handler]
    | false =>
      have written : isWritten node (key, binding) = true := by
        rw [isWritten, hidden, decide_eq_true style]
        rfl
      cases handler : Event.ofHandler? key <;>
        simp [style, noStyles, pathOf, actionOf, addStylesOf, written, handler,
          Fields.merge_cons, fieldSpace]

def writtenPaths (node : Node) (bindings : Fields Binding) : Fields String :=
  bindings.flatMap fun entry => (stylesOf node entry).bindings ++ pathOf node entry

def writtenActions (node : Node) (bindings : Fields Binding) : Fields String :=
  bindings.flatMap (actionOf node)

theorem foldl_exportBinding (node : Node) (element : Element) (bindings : Fields Binding) :
    bindings.foldl (exportBinding node) element =
      { element with
        bindings := Fields.merge element.bindings (writtenPaths node bindings)
        styles := bindings.foldl (addStylesOf node) element.styles
        actions := Fields.merge element.actions (writtenActions node bindings) } := by
  induction bindings generalizing element with
  | nil =>
    cases element
    rfl
  | cons entry bindings ih =>
    have paths : writtenPaths node (entry :: bindings) =
        (stylesOf node entry).bindings ++ pathOf node entry ++ writtenPaths node bindings := rfl
    have actions : writtenActions node (entry :: bindings) =
        actionOf node entry ++ writtenActions node bindings := rfl
    rw [List.foldl_cons, ih, exportBinding_eq, paths, actions,
      Fields.merge_append _ ((stylesOf node entry).bindings ++ pathOf node entry),
      Fields.merge_append _ (actionOf node entry)]
    rfl

theorem boundElement_eq_merge (node : Node) :
    boundElement node =
      { id := node.metadataText? idKey
        version := Fields.get? node.metadata versionKey
        layerName := node.metadataText? layerNameKey
        bindings :=
          Fields.merge (restoreBound .properties (keptStyle? node stylePropertyKey)
            (restoreBound .options (keptStyle? node styleOptionKey) []))
            (writtenPaths node node.bindings)
        styles := node.bindings.foldl (addStylesOf node) none
        actions := Fields.ofEntries (writtenActions node node.bindings) } := by
  rw [boundElement, foldl_exportBinding]
  rfl

theorem restoreBound_none (space : Namespace) (bindings : Fields String) :
    restoreBound space none bindings = bindings := rfl

theorem restoreLiteral_none (literals : Fields Json) : restoreLiteral none literals = literals := rfl

/-! ## Fields that are written under their own names -/

theorem writtenPaths_append (node : Node) (bindings others : Fields Binding) :
    writtenPaths node (bindings ++ others) =
      writtenPaths node bindings ++ writtenPaths node others :=
  List.flatMap_append

theorem writtenActions_append (node : Node) (bindings others : Fields Binding) :
    writtenActions node (bindings ++ others) =
      writtenActions node bindings ++ writtenActions node others :=
  List.flatMap_append

theorem written_fields (node : Node) {bound : Fields String} {space : Namespace}
    (h : ∀ key ∈ Fields.names bound, key ≠ styleKey ∧ Fields.has node.slots key = false ∧
      Event.ofHandler? key = none ∧ fieldSpace node key = space) :
    writtenPaths node (expressions bound) = paths space bound ∧
      writtenActions node (expressions bound) = [] := by
  induction bound with
  | nil => exact ⟨rfl, rfl⟩
  | cons entry bound ih =>
    obtain ⟨key, code⟩ := entry
    obtain ⟨⟨other, free, unhandled, belongs⟩, others⟩ := List.forall_mem_cons.mp h
    dsimp only at other free unhandled belongs
    obtain ⟨bound_paths, actions⟩ := ih others
    have written : isWritten node (key, .expression code) = true := by
      rw [isWritten, decide_eq_true other, free]
      rfl
    have first : (stylesOf node (key, .expression code)).bindings ++
        pathOf node (key, .expression code) = [(space.path key, code)] := by
      rw [stylesOf, if_neg other, pathOf, unhandled]
      dsimp only
      rw [if_pos written, belongs]
      rfl
    have none : actionOf node (key, .expression code) = [] := by
      rw [actionOf, unhandled]
    constructor
    · have rest : paths space ((key, code) :: bound) =
          [(space.path key, code)] ++ paths space bound := rfl
      rw [rest, ← bound_paths]
      exact congrArg (· ++ writtenPaths node (expressions bound)) first
    · rw [← actions]
      exact congrArg (· ++ writtenActions node (expressions bound)) none

/-- Handlers are written as actions. -/
theorem written_handlers (node : Node) {handlers : Fields String}
    (h : ∀ handler ∈ handlers, Event.startsSmall handler.1 = true ∧
      Fields.has node.slots (Event.handlerName handler.1) = false) :
    writtenPaths node (expressions (handlerFields handlers)) = [] ∧
      writtenActions node (expressions (handlerFields handlers)) = handlers := by
  induction handlers with
  | nil => exact ⟨rfl, rfl⟩
  | cons handler handlers ih =>
    obtain ⟨event, code⟩ := handler
    obtain ⟨⟨small, free⟩, others⟩ := List.forall_mem_cons.mp h
    dsimp only at small free
    obtain ⟨paths, actions⟩ := ih others
    have handles := Event.ofHandler?_handlerName small
    have other : Event.handlerName event ≠ styleKey := by
      intro same
      rw [same] at handles
      cases handles
    have written : isWritten node (Event.handlerName event, .expression code) = true := by
      rw [isWritten, decide_eq_true other, free]
      rfl
    have none : (stylesOf node (Event.handlerName event, .expression code)).bindings ++
        pathOf node (Event.handlerName event, .expression code) = [] := by
      rw [stylesOf, if_neg other, pathOf, handles]
      rfl
    have first : actionOf node (Event.handlerName event, .expression code) = [(event, code)] := by
      rw [actionOf, handles]
      exact if_pos written
    constructor
    · rw [← paths]
      exact congrArg (· ++ writtenPaths node (expressions (handlerFields handlers))) none
    · have whole : writtenActions node (expressions (handlerFields ((event, code) :: handlers))) =
          [(event, code)] ++ writtenActions node (expressions (handlerFields handlers)) :=
        congrArg (· ++ writtenActions node (expressions (handlerFields handlers))) first
      rw [whole, actions]
      rfl

theorem foldl_addStylesOf (node : Node) (styles : Option Style.Literals) {bindings : Fields Binding}
    (h : styleKey ∉ Fields.names bindings) :
    bindings.foldl (addStylesOf node) styles = styles := by
  refine List.foldlRecOn (motive := fun current => current = styles) bindings _ rfl ?_
  rintro current rfl entry member
  have other : entry.1 ≠ styleKey := fun same => h (same ▸ Fields.mem_names_of_mem member)
  rw [addStylesOf, stylesOf, if_neg other]
  rfl

/-! ## Parts -/

theorem exportSlots_eq (slots : List (String × List Node)) :
    exportSlots slots =
      Fields.mapValues (fun nodes => .array (Element.listToJson (exportNodes nodes))) slots := by
  induction slots with
  | nil => rfl
  | cons slot slots ih => exact congrArg (_ :: ·) ih

theorem exportNodes_eq_map (nodes : List Node) : exportNodes nodes = nodes.map exportNode := by
  induction nodes with
  | nil => rfl
  | cons node nodes ih => exact congrArg (exportNode node :: ·) ih

theorem exportNodes_append (nodes others : List Node) :
    exportNodes (nodes ++ others) = exportNodes nodes ++ exportNodes others := by
  rw [exportNodes_eq_map, exportNodes_eq_map, exportNodes_eq_map, List.map_append]

theorem names_exportSlots (slots : List (String × List Node)) :
    Fields.names (exportSlots slots) = Fields.names slots := by
  rw [exportSlots_eq, Fields.names_mapValues]

def writtenOptions (node : Node) (parts : Exported) : Fields Json :=
  let options := Fields.merge (exportedOptions node) parts.slots
  match Grouping.of? node.name with
  | some grouping =>
    if parts.groups.isEmpty then options
    else Fields.put options grouping.optionKey (.array parts.groups)
  | none => options

/-- The element for a node that is no loop: the element for its bindings, with what its literals,
its slots and its children are exported as. Most facts about an export start from this equation. -/
theorem exportNode_plain {node : Node} (h : Loop.head? node = none) :
    exportNode node =
      assemble node
        (match Grouping.of? node.name with
        | none => ⟨exportSlots node.slots, [], exportNodes node.children⟩
        | some grouping => ⟨exportSlots node.slots, (exportGroups grouping node.children).1,
            (exportGroups grouping node.children).2⟩) := by
  cases node
  unfold exportNode
  dsimp only at h ⊢
  rw [h]
  dsimp only
  split
  · next none => rw [none]
  · next columns => rw [columns]; rfl
  · next variants => rw [variants]; rfl

theorem head?_eq_none {node : Node} (other : node.name ≠ Loop.wrapperName) :
    Loop.head? node = none := if_neg other

theorem exportNode_of_head {node : Node} {head : Loop.Head} (h : Loop.head? node = some head) :
    exportNode node = repeatElements head (exportNodes node.children) := by
  cases node
  unfold exportNode
  dsimp only at h ⊢
  rw [h]

/-- A loop around one node that is no loop is written as that node, repeated. -/
theorem exportNode_loop {body node : Node} {head : Loop.Head}
    (single : (exportNode body).repetition = none) (h : Loop.head? node = some head)
    (children : node.children = [body]) :
    exportNode node = { exportNode body with
      repetition := some ⟨head.collection, head.itemName, head.indexName⟩ } := by
  rw [exportNode_of_head h, children, exportNodes, exportNodes, repeatElements]
  simp only [single, Option.isSome_none, Bool.false_eq_true, if_false]

theorem repetition_assemble (node : Node) (parts : Exported) :
    (assemble node parts).repetition = none := by
  unfold assemble
  rw [boundElement_eq_merge]
  dsimp only
  split <;> rfl

theorem repetition_exportNode {node : Node} (loop : Loop.head? node = none) :
    (exportNode node).repetition = none := by
  rw [exportNode_plain loop]
  exact repetition_assemble _ _

theorem repetition_of_head {node : Node} {head : Loop.Head} (h : Loop.head? node = some head) :
    (exportNode node).repetition = some ⟨head.collection, head.itemName, head.indexName⟩ := by
  rw [exportNode_of_head h]
  rfl

theorem isSome_repetition (node : Node) :
    (exportNode node).repetition.isSome = (Loop.head? node).isSome := by
  cases h : Loop.head? node with
  | none => rw [repetition_exportNode h]; rfl
  | some head => rw [repetition_of_head h]; rfl

theorem frame_assemble (node : Node) (parts : Exported) :
    (assemble node parts).bindings = (boundElement node).bindings ∧
      (assemble node parts).actions = (boundElement node).actions ∧
      (assemble node parts).code = {} ∧
      (assemble node parts).properties.getD [] = exportedProperties node := by
  have code : (boundElement node).code = {} := by rw [boundElement_eq_merge]
  unfold assemble
  dsimp only
  split
  · exact ⟨rfl, rfl, code, rfl⟩
  · refine ⟨rfl, rfl, code, ?_⟩
    dsimp only
    split
    · next empty => exact (List.isEmpty_iff.mp empty).symm
    · rfl

theorem children_assemble (node : Node) (parts : Exported) :
    (assemble node parts).children = parts.children := by
  unfold assemble
  dsimp only
  split <;> rfl

theorem use_assemble {node : Node} (component : node.isTag = false) (parts : Exported) :
    (assemble node parts).component = some ⟨node.name, writtenOptions node parts⟩ := by
  unfold assemble
  dsimp only
  rw [if_neg (by simp [component])]
  rfl

theorem grouping_of_tag {node : Node} (h : node.isTag = true) : Grouping.of? node.name = none := by
  cases found : Grouping.of? node.name with
  | none => rfl
  | some grouping =>
    have container : grouping.container = node.name := by
      have := List.find?_some found
      exact of_decide_eq_true this
    rw [Node.isTag, ← container] at h
    cases grouping <;> simp [Grouping.container, Node.isTagName] at h

end BlockLoom.Content
