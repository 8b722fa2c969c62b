/-!
Why a conversion between formats fails. Every cause is a constructor; the
wording of all of them is in `Failure.message`.
-/

namespace BlockLoom

/-- A place in a document, from the outermost list or field inwards. -/
abbrev Path := String

namespace Path

/-- The item at a position of the list at a place. -/
def item (path : Path) (index : Nat) : Path :=
  path ++ "[" ++ toString index ++ "]"

def field (path : Path) (name : String) : Path :=
  path ++ "." ++ name

end Path

/-- What is wrong with the structure of a document at some place. -/
inductive Defect where
  /-- A field of a node is both a literal and bound. -/
  | fieldTwice (key : String)
  | loopWithoutCollection
  | elementExpected
  | listExpected
  | objectExpected
  /-- An element that does not have the shape of one. -/
  | unreadableElement (message : String)
  deriving DecidableEq, Repr

def Defect.message : Defect → String
  | .fieldTwice key => "'" ++ key ++ "' is both a literal property and a binding"
  | .loopWithoutCollection => "loop wrapper has no 'each' binding"
  | .elementExpected => "expected a builder element"
  | .listExpected => "expected an array"
  | .objectExpected => "expected an object"
  | .unreadableElement message => message

inductive Limit where
  | reading (format : String)
  | writing (format : String)
  /-- A format without options was given some. -/
  | anyOption (format : String)
  | unknownOptions (format : String) (keys : List String)
  | notBoolean (key value : String)
  deriving DecidableEq, Repr

def Limit.message : Limit → String
  | .reading format => "Format '" ++ format ++ "' does not support parsing"
  | .writing format => "Format '" ++ format ++ "' does not support serialization"
  | .anyOption format => "Format '" ++ format ++ "' does not support extra parameters"
  | .unknownOptions format keys =>
    "Format '" ++ format ++ "' does not support option(s): " ++ ", ".intercalate keys
  | .notBoolean key value => "Option '" ++ key ++ "' expects a boolean, got '" ++ value ++ "'"

inductive Failure where
  | unknownFormat (name : String)
  /-- The text is not what the format can read. -/
  | unreadable (message : String)
  | unsupported (limit : Limit)
  | malformed (path : Path) (defect : Defect)
  /-- A plugin refused the component or the text it was given. -/
  | refused (plugin message : String)
  deriving DecidableEq, Repr

def Failure.message : Failure → String
  | .unknownFormat name => "Format '" ++ name ++ "' not found"
  | .unreadable message => "Parse error: " ++ message
  | .unsupported limit => "Operation not supported: " ++ limit.message
  | .malformed path defect => "Malformed input at " ++ path ++ ": " ++ defect.message
  | .refused plugin message => "Plugin '" ++ plugin ++ "' failed: " ++ message

end BlockLoom
