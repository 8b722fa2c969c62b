import BlockLoom.Component.Basic
import BlockLoom.Component.Loop
import BlockLoom.Failure

/-!
Valid trees: no field of a node is both literal and bound, and every loop
wrapper has a collection. The check reports the first node that is wrong, a node
before its children and children before slots.
-/

namespace BlockLoom

namespace Node

/-- What is wrong with a node, its children and slots aside. -/
def defect? (node : Node) : Option Defect :=
  match node.properties.find? fun entry => Fields.has node.bindings entry.1 with
  | some (key, _) => some (.fieldTwice key)
  | none =>
    if node.name = Loop.wrapperName ∧ !Fields.has node.bindings Loop.collectionKey then
      some .loopWithoutCollection
    else none

mutual

/-- The first defect of a tree: of the root, then of its children, then of its slots, each with the
path of the node that has it. -/
def check (path : Path) : Node → Except Failure Unit
  | ⟨name, properties, bindings, children, slots, scope, metadata⟩ =>
    match defect? ⟨name, properties, bindings, children, slots, scope, metadata⟩ with
    | some defect => .error (.malformed path defect)
    | none =>
      match checkList (path.field "children") 0 children with
      | .error failure => .error failure
      | .ok () => checkSlots path slots

/-- The first defect in a list of nodes, of which the first is at `index`. -/
def checkList (path : Path) (index : Nat) : List Node → Except Failure Unit
  | [] => .ok ()
  | node :: nodes =>
    match check (path.item index) node with
    | .error failure => .error failure
    | .ok () => checkList path (index + 1) nodes

def checkSlots (path : Path) : List (String × List Node) → Except Failure Unit
  | [] => .ok ()
  | (key, nodes) :: slots =>
    match checkList ((path.field "slots").field key) 0 nodes with
    | .error failure => .error failure
    | .ok () => checkSlots path slots

end

end Node

/-- The first defect of a component. -/
def Component.check (component : Component) : Except Failure Unit :=
  Node.checkList "children" 0 component.children

end BlockLoom
