import BlockLoom.Component.FieldValue
import BlockLoom.Component.Loop
import BlockLoom.Content.Event
import BlockLoom.Content.Grouping
import BlockLoom.Content.Namespace
import BlockLoom.Content.Settings
import BlockLoom.Style.Merge

/-!
From page content to components. Every element becomes one node, or two if it is
repeated: a loop wrapper and what it repeats. What the node cannot say in its
own terms is kept in its metadata: the identity of the element, which fields
were properties, and settings called `style`, since the field of that name is
the one expression for all styles.
-/

namespace BlockLoom.Content

/-! ## Metadata -/

def idKey : String := "builderId"

def versionKey : String := "builderVersion"

def layerNameKey : String := "layerName"

/-- The entry that lists the fields of a component that were properties. -/
def propertyKeysKey : String := "builderProperties"

/-- The entry that lists the bindings of a native tag that were options. -/
def optionKeysKey : String := "builderOptions"

/-- The entry that holds an option called `style`. -/
def styleOptionKey : String := "styleOption"

/-- The entry that holds a property called `style`. -/
def stylePropertyKey : String := "styleProperty"

/-- The entry that records which styles were literal. -/
def literalStylesKey : String := "literalStyles"

/-- The field that holds all styles of a node. -/
def styleKey : String := "style"

/-! ## Fields -/

def Element.nodeName (settings : ImportSettings) (element : Element) : String :=
  (element.componentName?.or (element.tagName.filter fun tag => !tag.isEmpty)).getD
    settings.placeholderTag

/-- What identifies an element, as metadata. -/
def Element.identity (element : Element) : Fields Json :=
  Json.optionalMember idKey (element.id.map Json.string) ++
    Json.optionalMember versionKey element.version ++
    Json.optionalMember layerNameKey (element.layerName.map Json.string)

/-- The values of fields: literals, each with the expression bound to it if there
is one, and then the expressions that are bound to no literal. -/
def fieldValues (literals : Fields Json) (bound : Fields String) : Fields FieldValue :=
  literals.filterMap (fun entry =>
      (FieldValue.of? (some entry.2) (Fields.get? bound entry.1)).map fun value =>
        (entry.1, value)) ++
    bound.filterMap fun entry =>
      if Fields.has literals entry.1 then none
      else (FieldValue.of? none (some entry.2)).map fun value => (entry.1, value)

def fieldEntry : FieldValue → Json
  | .literal value => .object [("value", value)]
  | .bound code => .object [("code", .string code)]

/-- Writes a field of a node, or an entry of the metadata for a field called `style`. -/
def addField (styleEntry : String) (node : Node) (field : String × FieldValue) : Node :=
  if field.1 = styleKey then node.setMetadata styleEntry (fieldEntry field.2)
  else node.setField field.1 field.2

def addFields (styleEntry : String) (node : Node) (fields : Fields FieldValue) : Node :=
  fields.foldl (addField styleEntry) node

/-- What the options of an element hold, sorted: slots, the nodes for groups, and plain data. -/
structure OptionParts where
  slots : List (String × List Node) := []
  groups : List Node := []
  plain : List (String × Json) := []
  deriving Inhabited

/-- The fields that come from options. An expression for an option that holds a
slot or groups has no effect. -/
def Element.optionFields (element : Element) (bound : Bound) (parts : OptionParts) :
    Fields FieldValue :=
  fieldValues parts.plain bound.options |>.filter fun entry =>
    Fields.has parts.plain entry.1 || !Fields.has element.options entry.1

def Element.propertyFields (element : Element) (bound : Bound) : Fields FieldValue :=
  fieldValues (element.properties.getD []) bound.properties

/-- Lists the fields of a component that were properties. -/
def recordProperties (element : Element) (fields : Fields FieldValue) (node : Node) : Node :=
  let keys := (Fields.names fields).filter fun key => key ≠ styleKey
  if element.componentName?.isSome && !keys.isEmpty then
    node.setMetadata propertyKeysKey
      (.array ((keys.mergeSort fun left right => decide (left ≤ right)).map Json.string))
  else node

/-- Lists the bindings of a native tag that were options and not overridden by a property. -/
def recordOptions (element : Element) (bound : Bound) (node : Node) : Node :=
  let overridden (key : String) : Bool :=
    Fields.has bound.properties key || Fields.has (element.properties.getD []) key
  let keys := (Fields.names bound.options).filter fun key =>
    key ≠ styleKey && Fields.has node.bindings key && !overridden key
  if node.isTag && !keys.isEmpty then
    node.setMetadata optionKeysKey (.array (keys.map Json.string))
  else node

/-! ## Actions and styles -/

/-- The handlers of an element by event: bound ones, those under `actions`, and
those among the code, later ones in place of earlier ones. -/
def Element.handlers (element : Element) (bound : Bound) : Fields String :=
  Fields.merge bound.actions (prefer element.actions element.code.actions)

/-- Binds the handlers that have an event and code. -/
def addHandlers (node : Node) (handlers : Fields String) : Node :=
  handlers.foldl (fun node handler =>
    if handler.1.isEmpty || Text.isBlankText handler.2 then node
    else node.setBinding (Event.handlerName handler.1) (.expression handler.2)) node

def addStyles (element : Element) (bound : Bound) (node : Node) : Node :=
  match Style.merge (element.styles.getD []) bound.styles with
  | some merged =>
    (node.setBinding styleKey (.expression merged.code)).setMetadata literalStylesKey
      merged.recorded
  | none => node

/-! ## Nodes -/

def ownChildren (name : String) (children : List Node) : List Node :=
  if name = Grouping.variants.container then (defaultVariant? children).toList else children

/-- The node for an element, its repetition aside. -/
def Element.body (settings : ImportSettings) (element : Element) (parts : OptionParts)
    (children : List Node) : Node :=
  let name := element.nodeName settings
  let bound := Bound.of element.bindings element.code.bindings
  let properties := element.propertyFields bound
  let start : Node :=
    { name
      slots := parts.slots
      children := parts.groups ++ ownChildren name children
      metadata := element.identity }
  let fields := addFields styleOptionKey start (element.optionFields bound parts)
  let fields := addFields stylePropertyKey fields properties
  let fields := recordOptions element bound (recordProperties element properties fields)
  addStyles element bound (addHandlers fields (element.handlers bound))

def Element.repeated (element : Element) (body : Node) : Node :=
  match element.repetition.filter fun repetition => !Text.isBlankText repetition.collection with
  | some repetition =>
    Loop.wrap body repetition.collection repetition.itemName repetition.indexName
  | none => body

/-- The order in which the recursion below descends: to less depth, at the same
depth from an element to its parts, and within a list to its rest. -/
theorem before_of_le {a b c d e f : Nat} (outer : a ≤ d) (inner : b < e ∨ b = e ∧ c < f) :
    Prod.Lex (· < ·) (Prod.Lex (· < ·) (· < ·)) (a, b, c) (d, e, f) := by
  simp only [Prod.lex_def]
  omega

mutual

/-- Imports an element. Options are read before children, each in order, and the
first failure ends the import. -/
def importElement (settings : ImportSettings) (path : Path) (element : Element) :
    Except Failure Node :=
  match importOptions settings ((path.field "component").field "options")
      (Grouping.of? (element.nodeName settings)) element.options with
  | .error failure => .error failure
  | .ok parts =>
    match importElements settings (path.field "children") 0 element.children with
    | .error failure => .error failure
    | .ok children => .ok (element.repeated (element.body settings parts children))
termination_by (element.depth, 1, 0)
decreasing_by
  · exact before_of_le element.depthMembers_options (by omega)
  · exact before_of_le element.depthList_children (by omega)

def importElements (settings : ImportSettings) (path : Path) (index : Nat)
    (elements : List Element) : Except Failure (List Node) :=
  match elements with
  | [] => .ok []
  | element :: elements =>
    match importElement settings (path.item index) element with
    | .error failure => .error failure
    | .ok node =>
      match importElements settings path (index + 1) elements with
      | .error failure => .error failure
      | .ok nodes => .ok (node :: nodes)
termination_by (Element.depthList elements, 0, elements.length)
decreasing_by
  · exact Prod.Lex.left _ _ (Nat.le_max_left _ _)
  · exact before_of_le (Nat.le_max_right _ _) (.inr ⟨rfl, Nat.lt_succ_self _⟩)

def importGroups (settings : ImportSettings) (path : Path) (grouping : Grouping) (index : Nat)
    (groups : List Group) : Except Failure (List Node) :=
  match groups with
  | [] => .ok []
  | group :: groups =>
    match importElements settings ((path.item index).field Group.blocksKey) 0 group.blocks with
    | .error failure => .error failure
    | .ok blocks =>
      match importGroups settings path grouping (index + 1) groups with
      | .error failure => .error failure
      | .ok nodes => .ok (grouping.node group blocks :: nodes)
termination_by (Group.depthList groups, 0, groups.length)
decreasing_by
  · exact Prod.Lex.left _ _ (Nat.le_max_left _ _)
  · exact before_of_le (Nat.le_max_right _ _) (.inr ⟨rfl, Nat.lt_succ_self _⟩)

/-- Imports the options of a component: the option for groups if the component is one with groups,
lists of elements as slots, and all others as plain data. The first failure ends the import. -/
def importOptions (settings : ImportSettings) (path : Path) (grouping : Option Grouping)
    (options : List (String × Json)) : Except Failure OptionParts :=
  match options with
  | [] => .ok {}
  | (key, value) :: options =>
    match grouping.filter fun grouping => grouping.optionKey = key with
    | some grouping' =>
      match _hread : Group.readList (path.field key) value with
      | .error failure => .error failure
      | .ok groups =>
        match importGroups settings (path.field key) grouping' 0 groups with
        | .error failure => .error failure
        | .ok nodes =>
          match importOptions settings path grouping options with
          | .error failure => .error failure
          | .ok parts => .ok { parts with groups := nodes ++ parts.groups }
    | none =>
      match _hread : readOption (path.field key) value with
      | .error failure => .error failure
      | .ok (.slot elements) =>
        match importElements settings (path.field key) 0 elements with
        | .error failure => .error failure
        | .ok nodes =>
          match importOptions settings path grouping options with
          | .error failure => .error failure
          | .ok parts => .ok { parts with slots := (key, nodes) :: parts.slots }
      | .ok (.plain value) =>
        match importOptions settings path grouping options with
        | .error failure => .error failure
        | .ok parts => .ok { parts with plain := (key, value) :: parts.plain }
termination_by (Json.depthMembers options, 0, options.length)
decreasing_by
  · exact Prod.Lex.left _ _
      (Nat.lt_of_le_of_lt (Group.depth_readList _hread) (Nat.le_max_left _ _))
  · exact before_of_le (Nat.le_max_right _ _) (.inr ⟨rfl, Nat.lt_succ_self _⟩)
  · exact Prod.Lex.left _ _ (Nat.lt_of_le_of_lt (depth_readOption _hread) (Nat.le_max_left _ _))
  all_goals exact before_of_le (Nat.le_max_right _ _) (.inr ⟨rfl, Nat.lt_succ_self _⟩)

end

/-! ## Documents -/

/-- The code of a document: typed code if there is any, else plain code. -/
def code? (content : Content) : Option String :=
  [content.typedCode, content.plainCode].findSome? fun code =>
    code.filter fun code => !Text.isBlankText code

def componentName (settings : ImportSettings) (content : Content) : String :=
  (content.name.filter fun name => !Text.isBlankText name).getD settings.componentName

/-- Imports a document: its blocks as nodes, and its code as the state that it declares and the code
that runs when the component is mounted. -/
def toComponent (settings : ImportSettings) (content : Content) : Except Failure Component :=
  match importElements settings "blocks" 0 content.blocks with
  | .error failure => .error failure
  | .ok children =>
    let (state, onMount) := ((code? content).map State.split).getD ([], none)
    .ok
      { name := componentName settings content
        state
        inputs := content.inputs
        onMount
        children
        metadata :=
          Json.optionalMember Component.cssKey
            ((content.css.filter fun css => !css.isEmpty).map Json.string) }

/-- Imports the text of a document. -/
def parse (settings : ImportSettings) (source : String) : Except Failure Component :=
  match read source with
  | .error message => .error (.unreadable message)
  | .ok content => toComponent settings content

end BlockLoom.Content
