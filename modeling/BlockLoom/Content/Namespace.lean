import BlockLoom.Style.Source
import BlockLoom.Text.Search

/-!
The dotted paths under which page content binds expressions. Five beginnings of
a path mean something; the rest of the path is the key within that namespace. A
path with any other beginning, or with nothing after it, has no meaning.
-/

namespace BlockLoom.Content

inductive Namespace where
  | style
  | responsiveStyles
  | options
  | properties
  | actions
  deriving DecidableEq, Repr

namespace Namespace

def all : List Namespace := [.style, .responsiveStyles, .options, .properties, .actions]

def beginning : Namespace → String
  | .style => "style."
  | .responsiveStyles => "responsiveStyles."
  | .options => "component.options."
  | .properties => "properties."
  | .actions => "actions."

def path (space : Namespace) (key : String) : String :=
  space.beginning ++ key

/-- The key of a path in a namespace. -/
def key? (space : Namespace) (path : String) : Option String :=
  ((Text.after? space.beginning.toList path.toList).filter fun rest => !rest.isEmpty).map
    String.ofList

/-- The namespace and key of a path. -/
def split? (path : String) : Option (Namespace × String) :=
  all.findSome? fun space => (space.key? path).map fun key => (space, key)

end Namespace

/-- Expressions by path, those of `preferred` in place of others for the same path. -/
def prefer (plain preferred : Fields String) : Fields String :=
  Fields.merge plain preferred

/-- The expressions bound on one element, by namespace. -/
structure Bound where
  styles : Style.Expressions := {}
  options : Fields String := []
  properties : Fields String := []
  actions : Fields String := []
  deriving DecidableEq, Repr, Inhabited

namespace Bound

def add (bound : Bound) (path code : String) : Bound :=
  match Namespace.split? path with
  | none => bound
  | some (.style, key) => { bound with styles := bound.styles.insertBase key code }
  | some (.responsiveStyles, key) =>
    match Text.splitFirst? '.' key.toList with
    | some (bucket, c :: rest) =>
      { bound with
        styles :=
          bound.styles.insertResponsive (String.ofList bucket) (String.ofList (c :: rest)) code }
    | _ => bound
  | some (.options, key) => { bound with options := Fields.put bound.options key code }
  | some (.properties, key) => { bound with properties := Fields.put bound.properties key code }
  | some (.actions, key) => { bound with actions := Fields.put bound.actions key code }

/-- Sorts expressions by namespace. A path in no namespace, or one that ends with its namespace, is
dropped. -/
def of (plain preferred : Fields String) : Bound :=
  (prefer plain preferred).foldl (fun bound entry => bound.add entry.1 entry.2) {}

end Bound

end BlockLoom.Content
