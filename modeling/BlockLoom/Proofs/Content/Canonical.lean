import BlockLoom.Proofs.Content.Assembled
import BlockLoom.Proofs.Content.Exportable
import BlockLoom.Proofs.Json.Order

/-!
Canonical page content: content that says nothing twice and nothing that it would
get anyway. Every key of an element comes from one place, names that a reader
makes up are not given, and the data in options are those of canonical elements.
Content of this form is written as it was read.
-/

namespace BlockLoom.Content

/-! ## Elements of which every key comes from one place -/

/-- A repetition over something that gives no name which it would get anyway. -/
structure Repetition.Explicit (repetition : Repetition) : Prop where
  collection : Text.isBlankText repetition.collection = false
  itemName : ∀ name, repetition.itemName = some name →
    name ≠ "" ∧ name ≠ Loop.defaultItemName repetition.collection
  indexName : ∀ name, repetition.indexName = some name →
    name ≠ "" ∧ name ≠ Loop.defaultIndexName

/-- A native tag, with properties even if there are none. -/
structure Element.IsTag (element : Element) : Prop where
  tag : ∃ name, element.tagName = some name ∧ Node.isTagName name = true
  component : element.component = none
  properties : element.properties.isSome = true

/-- A component that is no native tag and no loop, with properties only if there are any. -/
structure Element.IsComponent (element : Element) : Prop where
  component : ∃ use, element.component = some use ∧ use.name ≠ "" ∧
    Node.isTagName use.name = false ∧ use.name ≠ Loop.wrapperName
  tagName : element.tagName = none
  properties : element.properties ≠ some []

def Element.keys (element : Element) : List String :=
  Fields.names element.options ++ Fields.names (element.properties.getD []) ++
    Fields.names (within .options element.bindings) ++
    Fields.names (within .properties element.bindings) ++ handlerNames element.actions

/-- Whether a path binds an option or a property that is no handler. -/
def BindsField (path : String) : Prop :=
  ∃ key, key ≠ "" ∧ Event.ofHandler? key = none ∧
    (path = Namespace.options.path key ∨ path = Namespace.properties.path key)

/-- What is asked of a canonical element, its options and its children aside: it is a tag or a
component, no two of its fields have a name in common, and each is given in the form that an export
gives it. -/
structure Element.Explicit (element : Element) : Prop where
  type : element.type = elementType
  form : element.IsTag ∨ element.IsComponent
  code : element.code = {}
  styles : element.styles = none
  bindings : ∀ entry ∈ element.bindings,
    BindsField entry.1 ∧ Text.isBlankText entry.2 = false
  actions : ∀ entry ∈ element.actions,
    Event.startsSmall entry.1 = true ∧ Text.isBlankText entry.2 = false
  literals : ∀ entry ∈ element.properties.getD [], IsLiteral entry.2
  keys : (styleKey :: element.keys).Nodup
  repetition : ∀ repetition, element.repetition = some repetition → repetition.Explicit

def Element.outerName (element : Element) : String :=
  if element.repetition.isSome then Loop.wrapperName else element.nodeName {}

mutual

/-- Elements that are written as they were read. Elements beside columns must not
be taken for columns themselves. -/
inductive CanonicalElement : Element → Prop
  | intro (element : Element) (explicit : element.Explicit)
      (options : ∀ entry ∈ element.options,
        CanonicalOption (Grouping.of? (element.nodeName {})) entry.1 entry.2)
      (children : ∀ child ∈ element.children, CanonicalElement child)
      (beside : Grouping.of? (element.nodeName {}) = some .columns →
        ∀ child ∈ element.children, child.outerName ≠ Grouping.columns.nodeName) :
      CanonicalElement element

/-- Options with groups, with elements, or with plain data that hold no expression. -/
inductive CanonicalOption : Option Grouping → String → Json → Prop
  | groups {grouping : Option Grouping} {key : String} {items : List Json}
      (claimed : Grouping.claims grouping key = true) (filled : items ≠ [])
      (each : ∀ item ∈ items, CanonicalGroup grouping item) :
      CanonicalOption grouping key (.array items)
  | slot {grouping : Option Grouping} {key : String} {items : List Json}
      (free : Grouping.claims grouping key = false) (filled : items ≠ [])
      (each : ∀ item ∈ items, CanonicalItem item) :
      CanonicalOption grouping key (.array items)
  | plain {grouping : Option Grouping} {key : String} {value : Json}
      (free : Grouping.claims grouping key = false) (unmarked : IsPlain value)
      (literal : IsLiteral value) : CanonicalOption grouping key value

/-- Groups with a list of elements; a variant must not be taken for the default one. -/
inductive CanonicalGroup : Option Grouping → Json → Prop
  | intro {grouping : Option Grouping} {members : List (String × Json)} {items : List Json}
      (distinct : Fields.Distinct members)
      (found : Fields.get? members Group.blocksKey = some (.array items))
      (named : grouping = some .variants → defaultKey ∉ Fields.names members)
      (each : ∀ item ∈ items, CanonicalItem item) : CanonicalGroup grouping (.object members)

inductive CanonicalItem : Json → Prop
  | intro {value : Json} {element : Element} (stands : StandsFor value element)
      (same : Json.Similar value element.toJson) (canonical : CanonicalElement element) :
      CanonicalItem value

end

theorem canonicalElement_iff {element : Element} :
    CanonicalElement element ↔ element.Explicit ∧
      (∀ entry ∈ element.options,
        CanonicalOption (Grouping.of? (element.nodeName {})) entry.1 entry.2) ∧
      (∀ child ∈ element.children, CanonicalElement child) ∧
      (Grouping.of? (element.nodeName {}) = some .columns →
        ∀ child ∈ element.children, child.outerName ≠ Grouping.columns.nodeName) :=
  ⟨fun ⟨_, explicit, options, children, beside⟩ => ⟨explicit, options, children, beside⟩,
    fun ⟨explicit, options, children, beside⟩ => .intro element explicit options children beside⟩

/-- Documents that are written as they were read. Each of their elements says everything in the
place in which an export says it, and nothing twice. -/
structure Canonical (content : Content) : Prop where
  name : ∀ name, content.name = some name →
    Text.isBlankText name = false ∧ name ≠ defaultComponentName
  css : ∀ css, content.css = some css → css ≠ ""
  plainCode : content.plainCode = some ""
  typedCode : content.typedCode = some ""
  blocks : ∀ block ∈ content.blocks, CanonicalElement block

end BlockLoom.Content
