/-!
Syntax trees of scripts. A tree keeps the kinds of node that are looked at later
(literals, objects and their members, calls, whole statements) and treats every
other construct as a node that merely holds its parts in order. Comments are not
part of a tree.
-/

namespace BlockLoom.Script

/-- The part a method plays in its object. -/
inductive Role where
  | plain
  | getter
  | setter
  deriving DecidableEq, Repr

inductive Kind where
  /-- A name that stands for a value. -/
  | identifier
  /-- A bare key of a member. -/
  | name
  | number
  /-- A string with its value, unless an escape in it has none. -/
  | string (value : Option String)
  | boolean (value : Bool)
  | null
  /-- A minus sign before one operand. -/
  | negation
  /-- What stands between one pair of parentheses. -/
  | group
  | array
  | object
  /-- A key and its value. -/
  | pair
  /-- A name that is key and value of a member at once. -/
  | shorthand
  /-- A method whose first child is its key. -/
  | method (role : Role)
  /-- Three dots and an expression. -/
  | spread
  /-- A function written as an expression, arrows included. -/
  | function
  /-- A callee and its arguments. -/
  | call
  | arguments
  /-- An object and the name of one of its properties. -/
  | property
  /-- Any other expression that can be assigned to. -/
  | place
  /-- An expression that stands as a statement. -/
  | expressionStatement
  /-- A comment in the syntax of markup, which counts as a node. -/
  | markup
  | program
  /-- Text that fits no construct. -/
  | broken
  | other
  deriving DecidableEq, Repr

/-- A node: its kind, the number of characters before it, its source and its parts. -/
structure Tree where
  kind : Kind
  start : Nat
  text : List Char
  children : List Tree

namespace Tree

/-- The number of characters before the end of a node. -/
def stop (tree : Tree) : Nat :=
  tree.start + tree.text.length

def source (tree : Tree) : String :=
  String.ofList tree.text

mutual

/-- Whether some part of a tree fits no construct. -/
def isBroken : Tree → Bool
  | ⟨kind, _, _, children⟩ => kind == .broken || anyBroken children

def anyBroken : List Tree → Bool
  | [] => false
  | tree :: trees => isBroken tree || anyBroken trees

end

end Tree

end BlockLoom.Script
