import BlockLoom.Json.Writer
import BlockLoom.Script.Program
import BlockLoom.Text.Blank
import BlockLoom.Text.Letter

/-!
Object literals in scripts, read without evaluating anything: an object splits
into its members, each with a key and the source of its value. Members are
written back as `key: value` between braces.
-/

namespace BlockLoom.Script

/-- One member of an object literal. Methods and getters keep the source of the
whole member, all others the source of the value. -/
inductive Entry where
  | property (key value : String)
  | function (key value : String)
  | method (key source : String)
  | getter (key source : String)
  | spread (source : String)
  /-- A member without a fixed key, a setter, or a stray comment. -/
  | unsupported (source : String)
  deriving DecidableEq, Repr

/-- The fixed key that a member's key stands for. -/
def keyName? (key : Tree) : Option String :=
  match key.kind with
  | .name | .number => some key.source
  | .string value => value
  | _ => none

namespace Entry

/-- The entry for a member of an object. -/
def ofMember (member : Tree) : Entry :=
  let unsupported := Entry.unsupported member.source
  match member.kind, member.children with
  | .pair, [key, value] =>
    match keyName? key with
    | some key =>
      if value.kind == .function then .function key value.source else .property key value.source
    | none => unsupported
  | .shorthand, _ => .property member.source member.source
  | .method role, key :: _ =>
    match keyName? key, role with
    | some key, .plain => .method key member.source
    | some key, .getter => .getter key member.source
    | _, _ => unsupported
  | .spread, argument :: _ => .spread argument.source
  | _, _ => unsupported

def ofObject (object : Tree) : List Entry :=
  object.children.map ofMember

end Entry

/-- The expression that a text consists of, white space around it aside. -/
def readExpression? (source : String) : Option Tree :=
  readWhole (Text.trimList source.toList)

/-- The entries of a text that is a single object literal. -/
def readObject? (source : String) : Option (List Entry) :=
  match readExpression? source with
  | some tree => if tree.kind == .object then some (Entry.ofObject tree) else none
  | none => none

/-! ## Writing -/

def isNameStart (c : Char) : Bool :=
  Text.isAlphabetic c || c == '_' || c == '$'

def isNamePart (c : Char) : Bool :=
  Text.isAlphanumeric c || c == '_' || c == '$'

def isName (text : String) : Bool :=
  match text.toList with
  | [] => false
  | c :: rest => isNameStart c && rest.all isNamePart

/-- A key as it is written: bare if it is a name, between quotes if not. -/
def renderKey (key : String) : String :=
  if isName key then key else Json.quote key

def renderMember (key value : String) : String :=
  renderKey key ++ ": " ++ value

def braced (members : List String) : String :=
  if members.isEmpty then "\x7b\x7d" else "\x7b " ++ ", ".intercalate members ++ " \x7d"

/-- An object literal with the given keys and sources of values. -/
def renderObject (entries : List (String × String)) : String :=
  braced (entries.map fun entry => renderMember entry.1 entry.2)

end BlockLoom.Script
