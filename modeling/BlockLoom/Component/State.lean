import BlockLoom.Fields
import BlockLoom.Script.Object

/-!
The state of a component: named members of one object, each kept as source. A
component states its members in a call at the start of its code, in one of two
spellings; whatever else the code does happens when the component is mounted.
-/

namespace BlockLoom

inductive StateKind where
  | property
  | function
  | method
  | getter
  deriving DecidableEq, Repr, Inhabited

/-- A member of the state: the source of its value, or for methods and getters
the source of the whole member. -/
structure StateMember where
  code : String
  kind : StateKind := .property
  deriving DecidableEq, Repr, Inhabited

abbrev State := Fields StateMember

namespace State

def renderMember (key : String) (member : StateMember) : String :=
  match member.kind with
  | .method | .getter => member.code
  | .property | .function => Script.renderMember key member.code

/-- The object literal with all members. -/
def renderObject (state : State) : String :=
  Script.braced (state.map fun entry => renderMember entry.1 entry.2)

/-- The two spellings of the call that declares the state. -/
inductive Spelling where
  /-- A hook with the object as its argument. -/
  | hook
  /-- An assignment of the members to the state object. -/
  | assignment
  deriving DecidableEq, Repr

def Spelling.render (spelling : Spelling) (object : String) : String :=
  match spelling with
  | .hook => "useState(" ++ object ++ ");"
  | .assignment => "Object.assign(state, " ++ object ++ ");"

/-- The code that declares a state and goes on with the given code, if there is any. A state without
members is not declared. -/
def render (spelling : Spelling) (state : State) (onMount : Option String) : Option String :=
  let declared := if state.isEmpty then [] else [spelling.render state.renderObject]
  match declared ++ (onMount.bind Text.trimmed?).toList with
  | [] => none
  | parts => some ("\n".intercalate parts)

/-! ## Finding the call -/

/-- A call that declares state: the place of the source to cut out, and the
object literal if the call has one where it belongs. -/
structure Declaration where
  start : Nat
  stop : Nat
  object : Option Script.Tree

def hookNames : List String := ["useState", "useStore"]

/-- Whether a callee is the function that copies members to an object. -/
def isAssign (callee : Script.Tree) : Bool :=
  match callee.kind, callee.children with
  | .property, [object, name] => object.source == "Object" && name.source == "assign"
  | _, _ => false

/-- The argument that a call declares state with: `none` if the call declares none,
`some none` if it has no such argument. -/
def declaredArgument? (callee : Script.Tree) (given : List Script.Tree) :
    Option (Option Script.Tree) :=
  if hookNames.contains callee.source then some given.head?
  else if isAssign callee then
    match given with
    | target :: object :: _ => if target.source == "state" then some (some object) else none
    | _ => none
  else none

/-- The declaration that a node is, within the statement that ends it if it stands alone in one. -/
def declaration? (statement : Option Script.Tree) (tree : Script.Tree) : Option Declaration :=
  match tree.kind, tree.children with
  | .call, [callee, given] =>
    (declaredArgument? callee given.children).map fun argument =>
      let cut := statement.getD tree
      ⟨cut.start, cut.stop, argument.filter fun object => object.kind == .object⟩
  | _, _ => none

mutual

/-- The first declaration in a tree, outer calls before inner ones. On the way down the last
statement that is an expression is kept, since it is cut out if the call is all there is in it. -/
def findDeclaration? (statement : Option Script.Tree) : Script.Tree → Option Declaration
  | ⟨kind, start, text, children⟩ =>
    let tree : Script.Tree := ⟨kind, start, text, children⟩
    (declaration? statement tree).or
      (findDeclarationAmong? (if kind == .expressionStatement then some tree else none) children)

def findDeclarationAmong? (statement : Option Script.Tree) :
    List Script.Tree → Option Declaration
  | [] => none
  | tree :: trees => (findDeclaration? statement tree).or (findDeclarationAmong? statement trees)

end

/-- The member that an entry of the object declares, with its key. -/
def memberOf? : Script.Entry → Option (String × StateMember)
  | .property key value => some (key, ⟨value, .property⟩)
  | .function key value => some (key, ⟨value, .function⟩)
  | .method key source => some (key, ⟨source, .method⟩)
  | .getter key source => some (key, ⟨source, .getter⟩)
  | .spread _ | .unsupported _ => none

/-- Splits code into the state that it declares and the code that is left: what stands before the
declaration and what stands behind it, each trimmed, on lines of their own. -/
def split (code : String) : State × Option String :=
  let text := code.toList
  match findDeclaration? none (Script.readProgram text) with
  | none => ([], Text.trimmed? code)
  | some found =>
    let entries :=
      match found.object with
      | some object => if object.isBroken then [] else Script.Entry.ofObject object
      | none => []
    let before := Text.trimList (text.take found.start)
    let after := Text.trimList (text.drop found.stop)
    (Fields.ofEntries (entries.filterMap memberOf?),
      Text.trimmed? (String.ofList (before ++ '\n' :: after)))

end State

end BlockLoom
