import BlockLoom.Json.Value

/-!
The nodes of a component tree. A node stands for an element, a component, or
one of the constructs that wrap others (loops, fragments, columns, variants);
its name tells which. Its fields are split into literal properties and bindings
to expressions, and a field is written to one of the two by removing it from the
other.
-/

namespace BlockLoom

inductive BindingUse where
  | expression
  | property
  deriving DecidableEq, Repr, Inhabited

/-- Whether a binding fills one field or spreads an object over the node. -/
inductive BindingExtent where
  | single
  | spread
  deriving DecidableEq, Repr, Inhabited

/-- A field whose value is computed by an expression, kept as source. -/
structure Binding where
  code : String
  use : BindingUse := .expression
  extent : BindingExtent := .single
  deriving DecidableEq, Repr, Inhabited

namespace Binding

def expression (code : String) : Binding :=
  ⟨code, .expression, .single⟩

def isSpread (binding : Binding) : Bool :=
  binding.extent == .spread

end Binding

/-- The names that a loop introduces for its item and its index. -/
structure Scope where
  itemName : Option String := none
  indexName : Option String := none
  deriving DecidableEq, Repr, Inhabited

namespace Scope

def isEmpty (scope : Scope) : Bool :=
  scope.itemName.isNone && scope.indexName.isNone

end Scope

/-- A node with its fields, its children, and the named places that hold further nodes. -/
structure Node where
  name : String
  properties : List (String × Json) := []
  bindings : List (String × Binding) := []
  children : List Node := []
  slots : List (String × List Node) := []
  scope : Scope := {}
  metadata : List (String × Json) := []
  deriving Inhabited

namespace Node

def named (name : String) : Node :=
  { name }

/-- Makes a field a literal property. -/
def setProperty (node : Node) (key : String) (value : Json) : Node :=
  { node with
    bindings := Fields.remove node.bindings key
    properties := Fields.put node.properties key value }

def setBinding (node : Node) (key : String) (binding : Binding) : Node :=
  { node with
    properties := Fields.remove node.properties key
    bindings := Fields.put node.bindings key binding }

def setMetadata (node : Node) (key : String) (value : Json) : Node :=
  { node with metadata := Fields.put node.metadata key value }

/-- Whether a name is that of a native tag and not of a component: it starts with
a small ASCII letter and has no colon and no dot in it. -/
def isTagName (name : String) : Bool :=
  match name.toList with
  | [] => false
  | c :: rest => c.isLower && !rest.contains ':' && !rest.contains '.'

def isTag (node : Node) : Bool :=
  isTagName node.name

def metadataText? (node : Node) (key : String) : Option String :=
  (Fields.get? node.metadata key).bind Json.string?

mutual

/-- Whether two nodes are the same up to the order of the entries of their maps. -/
def same : Node → Node → Bool
  | ⟨name, properties, bindings, children, slots, scope, metadata⟩, other =>
    name == other.name && Fields.agree Json.same properties other.properties &&
      Fields.agree (· == ·) bindings other.bindings && sameList children other.children &&
      slots.length == other.slots.length && sameSlots slots other.slots &&
      scope == other.scope && Fields.agree Json.same metadata other.metadata

def sameList : List Node → List Node → Bool
  | [], [] => true
  | left :: lefts, right :: rights => same left right && sameList lefts rights
  | _, _ => false

def sameSlots : List (String × List Node) → List (String × List Node) → Bool
  | [], _ => true
  | (key, nodes) :: rest, all =>
    (match Fields.get? all key with
      | some others => sameList nodes others
      | none => false) && sameSlots rest all

end

end Node

end BlockLoom
