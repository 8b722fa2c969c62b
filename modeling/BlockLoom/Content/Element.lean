import BlockLoom.Component.Basic
import BlockLoom.Json.Depth
import BlockLoom.Style.Source

/-!
Page content: a tree of elements as a visual editor stores it. An element is a
native tag or stands for a component. Its settings are spread over options of
the component, properties, bound expressions, styles and actions.
-/

namespace BlockLoom

namespace Content

def elementType : String := "@builder.io/sdk:Element"

/-- The component that an element stands for, with its options. -/
structure Use where
  name : String
  options : List (String × Json) := []
  deriving Inhabited

structure Repetition where
  collection : String
  itemName : Option String := none
  indexName : Option String := none
  deriving DecidableEq, Repr, Inhabited

/-- Expressions in the language they were written in; they come before the
expressions that were made from them. -/
structure Code where
  actions : List (String × String) := []
  bindings : List (String × String) := []
  deriving DecidableEq, Repr, Inhabited

structure Element where
  type : String := elementType
  version : Option Json := none
  id : Option String := none
  tagName : Option String := none
  layerName : Option String := none
  component : Option Use := none
  properties : Option (List (String × Json)) := none
  bindings : List (String × String) := []
  styles : Option (List (String × List (String × Json))) := none
  repetition : Option Repetition := none
  code : Code := {}
  actions : List (String × String) := []
  children : List Element := []
  deriving Inhabited

namespace Element

def componentName? (element : Element) : Option String :=
  (element.component.map Use.name).filter fun name => !name.isEmpty

def options (element : Element) : Fields Json :=
  (element.component.map Use.options).getD []

def fragment (children : List Element) : Element :=
  { component := some { name := "Core:Fragment" }
    children }

mutual

/-- How deeply elements and the data in options are nested. -/
def depth : Element → Nat
  | ⟨_, _, _, _, _, component, _, _, _, _, _, _, children⟩ =>
    max (Json.depthMembers ((component.map Use.options).getD [])) (depthList children)

def depthList : List Element → Nat
  | [] => 0
  | element :: elements => max (depth element + 1) (depthList elements)

end

theorem depthMembers_options (element : Element) :
    Json.depthMembers element.options ≤ element.depth := by
  cases element
  rw [depth, options]
  exact Nat.le_max_left _ _

theorem depthList_children (element : Element) : depthList element.children ≤ element.depth := by
  cases element
  rw [depth]
  exact Nat.le_max_right _ _

end Element

/-- Whether a node or element of this name groups its children and nothing else. -/
def isFragmentName (name : String) : Bool :=
  name == "Fragment" || name == "Core:Fragment"

end Content

structure Content where
  name : Option String := none
  css : Option String := none
  /-- Code in the language that runs, made from the code in `typedCode`. -/
  plainCode : Option String := none
  typedCode : Option String := none
  inputs : List Input := []
  blocks : List Content.Element := []
  deriving Inhabited

end BlockLoom
