import BlockLoom.Content.Import
import BlockLoom.Style.Split

/-!
From components to page content, by the rules of the import read backwards. What
content cannot express is left out: spread bindings, slots of native tags, styles
nested in anything but a known media query, and the bindings of columns and
variants whose expressions are not constant.
-/

namespace BlockLoom.Content

/-! ## Fields -/

/-- The keys that an entry of the metadata lists. -/
def listedKeys (node : Node) (entry : String) : List String :=
  (((Fields.get? node.metadata entry).bind Json.items?).getD []).filterMap Json.string?

/-- Whether a field of a node goes to the properties; all others go to the options. -/
def isProperty (node : Node) (key : String) : Bool :=
  (node.isTag && !(listedKeys node optionKeysKey).contains key) ||
    (listedKeys node propertyKeysKey).contains key

/-- The setting called `style` that an entry of the metadata keeps. -/
def keptStyle? (node : Node) (entry : String) : Option FieldValue :=
  (Fields.get? node.metadata entry).bind fun kept =>
    match kept.textAt? "code" with
    | some code => some (.bound code)
    | none => (kept.get? "value").map FieldValue.literal

/-- Puts a kept setting back among literal settings. -/
def restoreLiteral (kept : Option FieldValue) (literals : Fields Json) : Fields Json :=
  match kept with
  | some (.literal value) => Fields.put literals styleKey value
  | _ => literals

/-- Puts a kept setting back among the bound expressions of its namespace. -/
def restoreBound (space : Namespace) (kept : Option FieldValue) (bindings : Fields String) :
    Fields String :=
  match kept with
  | some (.bound code) => Fields.put bindings (space.path styleKey) code
  | _ => bindings

def exportedProperties (node : Node) : Fields Json :=
  restoreLiteral (keptStyle? node stylePropertyKey)
    (node.properties.filter fun entry => isProperty node entry.1)

/-- The literal options of the element for a node, slots and groups aside. -/
def exportedOptions (node : Node) : Fields Json :=
  restoreLiteral (keptStyle? node styleOptionKey)
    (node.properties.filter fun entry => !isProperty node entry.1)

def exportBinding (node : Node) (element : Element) (entry : String × Binding) : Element :=
  let (key, binding) := entry
  if key = styleKey then
    let parts := Style.split binding.code (Fields.get? node.metadata literalStylesKey)
    { element with
      bindings := Fields.merge element.bindings parts.bindings
      styles := if parts.literals.isEmpty then element.styles else some parts.literals }
  else if Fields.has node.slots key || binding.isSpread then element
  else
    match Event.ofHandler? key with
    | some event => { element with actions := Fields.put element.actions event binding.code }
    | none =>
      let space : Namespace := if isProperty node key then .properties else .options
      { element with bindings := Fields.put element.bindings (space.path key) binding.code }

/-- The element for a node with its bindings, without literals and children. -/
def boundElement (node : Node) : Element :=
  let bindings := restoreBound .options (keptStyle? node styleOptionKey) []
  let bindings := restoreBound .properties (keptStyle? node stylePropertyKey) bindings
  let start : Element :=
    { id := node.metadataText? idKey
      version := Fields.get? node.metadata versionKey
      layerName := node.metadataText? layerNameKey
      bindings }
  node.bindings.foldl (exportBinding node) start

/-! ## Elements -/

/-- The parts of a node that are themselves exported. -/
structure Exported where
  /-- The elements of the slots, as data. -/
  slots : List (String × Json)
  /-- The groups, as data. -/
  groups : List Json
  children : List Element

/-- The element for a node whose parts have been exported. -/
def assemble (node : Node) (parts : Exported) : Element :=
  let element := { boundElement node with children := parts.children }
  let properties := exportedProperties node
  if node.isTag then { element with tagName := some node.name, properties := some properties }
  else
    let options := Fields.merge (exportedOptions node) parts.slots
    let options :=
      match Grouping.of? node.name with
      | some grouping =>
        if parts.groups.isEmpty then options
        else Fields.put options grouping.optionKey (.array parts.groups)
      | none => options
    { element with
      component := some { name := node.name, options }
      properties := if properties.isEmpty then none else some properties }

/-- The element for a loop whose children have been exported. One child is
repeated itself unless it is a loop already. -/
def repeatElements (head : Loop.Head) (children : List Element) : Element :=
  let body :=
    match children with
    | [child] => if child.repetition.isSome then Element.fragment [child] else child
    | children => Element.fragment children
  { body with repetition := some ⟨head.collection, head.itemName, head.indexName⟩ }

mutual

/-- Exports a node. Loop wrappers become repetitions of an element, the groups of a container become
an option, and any other node becomes an element of its own. -/
def exportNode : Node → Element
  | ⟨name, properties, bindings, children, slots, scope, metadata⟩ =>
    let node : Node := ⟨name, properties, bindings, children, slots, scope, metadata⟩
    match Loop.head? node with
    | some head => repeatElements head (exportNodes children)
    | none =>
      let slots := exportSlots slots
      match Grouping.of? name with
      | none => assemble node ⟨slots, [], exportNodes children⟩
      | some .columns =>
        let (groups, children) := exportColumns children
        assemble node ⟨slots, groups, children⟩
      | some .variants =>
        let (groups, children) := exportVariants children
        assemble node ⟨slots, groups, children⟩

def exportNodes : List Node → List Element
  | [] => []
  | node :: nodes => exportNode node :: exportNodes nodes

def exportSlots : List (String × List Node) → List (String × Json)
  | [] => []
  | (key, nodes) :: slots =>
    (key, .array (Element.listToJson (exportNodes nodes))) :: exportSlots slots

/-- The columns among nodes as data, and the elements for all other nodes. -/
def exportColumns : List Node → List Json × List Element
  | [] => ([], [])
  | ⟨name, properties, bindings, children, slots, scope, metadata⟩ :: nodes =>
    let node : Node := ⟨name, properties, bindings, children, slots, scope, metadata⟩
    let (groups, others) := exportColumns nodes
    if name = Grouping.columns.nodeName then
      (Grouping.columns.entry node (Element.listToJson (exportNodes children)) :: groups, others)
    else (groups, exportNode node :: others)

/-- The variants among nodes as data, and the elements for default content: for
the nodes in default variants and for those that are no variants. -/
def exportVariants : List Node → List Json × List Element
  | [] => ([], [])
  | ⟨name, properties, bindings, children, slots, scope, metadata⟩ :: nodes =>
    let node : Node := ⟨name, properties, bindings, children, slots, scope, metadata⟩
    let (groups, others) := exportVariants nodes
    if isDefaultVariant node then (groups, exportNodes children ++ others)
    else if name = Grouping.variants.nodeName then
      (Grouping.variants.entry node (Element.listToJson (exportNodes children)) :: groups, others)
    else (groups, exportNode node :: others)

end

/-! ## Documents -/

/-- Code that may be missing, as empty text if that is asked for. -/
def codeOrEmpty (settings : ExportSettings) (code : Option String) : Option String :=
  code.or (if settings.emitEmptyCode then some "" else none)

/-- Exports a component. A name that content without a name would get anyway is left out. Code is
written in both spellings of the declaration. -/
def ofComponent (settings : ExportSettings) (component : Component) : Content where
  name :=
    if component.name.isEmpty || component.name == defaultComponentName then none
    else some component.name
  css := component.css?
  plainCode := codeOrEmpty settings (State.render .assignment component.state component.onMount)
  typedCode := codeOrEmpty settings (State.render .hook component.state component.onMount)
  inputs := component.inputs
  blocks := exportNodes component.children

/-- The text of a component as page content. -/
def write (settings : ExportSettings) (component : Component) : String :=
  (ofComponent settings component).toJson.render (.ofPretty settings.pretty) 0

end BlockLoom.Content
