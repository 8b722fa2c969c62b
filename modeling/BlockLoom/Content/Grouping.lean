import BlockLoom.Component.Literal
import BlockLoom.Content.Option

/-!
Components whose options hold groups of elements: columns side by side, and
variants of which one is shown. In a component tree every group is a child of
its own, with the fields of the group as literal properties.

The element's own children stand beside the groups. For variants they are what
is shown if no variant is, and come together in one more variant that is marked
as the default.
-/

namespace BlockLoom.Content

/-- The components whose options hold groups. -/
inductive Grouping where
  | columns
  | variants
  deriving DecidableEq, Repr

namespace Grouping

/-- The name of the component. -/
def container : Grouping → String
  | .columns => "Columns"
  | .variants => "PersonalizationContainer"

def optionKey : Grouping → String
  | .columns => "columns"
  | .variants => "variants"

def nodeName : Grouping → String
  | .columns => "Column"
  | .variants => "Variant"

/-- The grouping of a component, if it is one of those with groups. -/
def of? (name : String) : Option Grouping :=
  [columns, variants].find? fun grouping => grouping.container = name

/-- The node for a group, around the nodes for its elements. -/
def node (grouping : Grouping) (group : Group) (children : List Node) : Node :=
  group.fields.foldl (fun node entry => node.setProperty entry.1 entry.2)
    { name := grouping.nodeName, children }

/-- The group for a node as data, with the elements for its children. -/
def entry (grouping : Grouping) (node : Node) (blocks : List Json) : Json :=
  match grouping with
  | .columns => .object (Fields.merge [(Group.blocksKey, .array blocks)] node.literalFields)
  | .variants => .object (Fields.put node.literalFields Group.blocksKey (.array blocks))

end Grouping

/-! ## Default content -/

/-- The property that marks the default variant. -/
def defaultKey : String := "default"

def defaultVariant? (children : List Node) : Option Node :=
  if children.isEmpty then none
  else
    some (Node.setProperty { name := Grouping.variants.nodeName, children } defaultKey (.string ""))

def isDefaultVariant (node : Node) : Bool :=
  node.name == Grouping.variants.nodeName && Fields.has node.properties defaultKey

/-- The variants among nodes, and the nodes that are default content: those in
default variants and those that are no variants, in order. -/
def splitVariants : List Node → List Node × List Node
  | [] => ([], [])
  | node :: nodes =>
    let (variants, defaults) := splitVariants nodes
    if isDefaultVariant node then (variants, node.children ++ defaults)
    else if node.name = Grouping.variants.nodeName then (node :: variants, defaults)
    else (variants, node :: defaults)

end BlockLoom.Content
