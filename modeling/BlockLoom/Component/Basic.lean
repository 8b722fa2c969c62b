import BlockLoom.Component.Node
import BlockLoom.Component.State

/-!
Components: a named tree of nodes with the state and the inputs that its
expressions refer to.
-/

namespace BlockLoom

/-- An input that a component declares; further fields are kept as they are. -/
structure Input where
  name : String
  defaultValue : Option Json := none
  metadata : List (String × Json) := []
  deriving Inhabited

namespace Input

/-- Whether two inputs are the same up to the order of their further fields. -/
def same (left right : Input) : Bool :=
  left.name == right.name &&
    (match left.defaultValue, right.defaultValue with
      | some left, some right => left.same right
      | none, none => true
      | _, _ => false) &&
    Fields.agree Json.same left.metadata right.metadata

end Input

structure Component where
  name : String
  state : State := []
  inputs : List Input := []
  /-- Code that runs when the component is mounted. -/
  onMount : Option String := none
  children : List Node := []
  metadata : List (String × Json) := []
  deriving Inhabited

namespace Component

/-- The entry of the metadata that holds global styles. -/
def cssKey : String := "cssCode"

def css? (component : Component) : Option String :=
  (Fields.get? component.metadata cssKey).bind Json.string?

/-- Whether two components are the same up to the order of the entries of their maps. -/
def same (left right : Component) : Bool :=
  left.name == right.name && Fields.agree (· == ·) left.state right.state &&
    left.inputs.length == right.inputs.length &&
    (left.inputs.zip right.inputs).all (fun pair => pair.1.same pair.2) &&
    left.onMount == right.onMount && Node.sameList left.children right.children &&
    Fields.agree Json.same left.metadata right.metadata

end Component

end BlockLoom
