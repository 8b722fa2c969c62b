import BlockLoom.Component.Node
import BlockLoom.Script.Object
import BlockLoom.Text.Search

/-!
Loops. A node that is repeated for the items of a collection is the only child
of a wrapper, which holds the collection as a binding and names the item and its
index. Names that are not given follow from the collection.
-/

namespace BlockLoom.Loop

def wrapperName : String := "For"

/-- The binding of a wrapper that holds the collection. -/
def collectionKey : String := "each"

def defaultIndexName : String := "index"

/-- The name for the items of a collection: the last part of the dotted
expression with a suffix, if that part is a name. -/
def defaultItemName (collection : String) : String :=
  let part := Text.trim (String.ofList (Text.afterLast '.' collection.toList))
  if Script.isName part then part ++ "Item" else "item"

def nameOr (given : Option String) (default : String) : String :=
  match given with
  | some name => if name.isEmpty then default else name
  | none => default

def wrap (body : Node) (collection : String) (itemName indexName : Option String) : Node :=
  let wrapper := (Node.named wrapperName).setBinding collectionKey (.expression collection)
  { wrapper with
    scope :=
      { itemName := some (nameOr itemName (defaultItemName collection))
        indexName := some (nameOr indexName defaultIndexName) }
    children := [body] }

/-- What a wrapper repeats over. Names are only given where they are not the default. -/
structure Head where
  collection : String
  itemName : Option String
  indexName : Option String
  deriving DecidableEq, Repr

def head? (node : Node) : Option Head :=
  if node.name = wrapperName then
    (Fields.get? node.bindings collectionKey).map fun binding =>
      { collection := binding.code
        itemName := node.scope.itemName.filter (· ≠ defaultItemName binding.code)
        indexName := node.scope.indexName.filter (· ≠ defaultIndexName) }
  else none

end BlockLoom.Loop
