import BlockLoom.Json.Writer
import BlockLoom.Text.Blank

/-!
Where the styles of an element come from: literal values and expressions, each
for the element as such or for one of the widths of the screen.
-/

namespace BlockLoom.Style

/-- The screen widths that styles can be limited to. -/
inductive Breakpoint where
  | small
  | large
  deriving DecidableEq, Repr

namespace Breakpoint

/-- All widths in the order in which their styles are written. -/
def all : List Breakpoint := [.small, .large]

/-- The name under which an element keeps the styles for a width. -/
def bucket : Breakpoint → String
  | .small => "small"
  | .large => "large"

def ofBucket? (name : String) : Option Breakpoint :=
  all.find? fun breakpoint => breakpoint.bucket = name

/-- The key of the nested object with the styles for a width. -/
def query : Breakpoint → String
  | .small => "@media (max-width: 640px)"
  | .large => "@media (max-width: 1200px)"

def ofQuery? (query : String) : Option Breakpoint :=
  all.find? fun breakpoint => breakpoint.query = query

end Breakpoint

/-- Literal styles by the name of a width and the name of a style. -/
abbrev Literals := Fields (Fields Json)

namespace Literals

def forWidth (literals : Literals) (breakpoint : Breakpoint) : Fields Json :=
  (Fields.get? literals breakpoint.bucket).getD []

def insert (literals : Literals) (breakpoint : Breakpoint) (key : String) (value : Json) :
    Literals :=
  Fields.put literals breakpoint.bucket (Fields.put (literals.forWidth breakpoint) key value)

end Literals

/-- Styles given by expressions: those for every width, and those for named widths. -/
structure Expressions where
  base : Fields String := []
  responsive : Fields (Fields String) := []
  deriving DecidableEq, Repr, Inhabited

namespace Expressions

/-- Adds a style for every width, unless its expression is blank. -/
def insertBase (styles : Expressions) (key code : String) : Expressions :=
  match Text.trimmed? code with
  | some code => { styles with base := Fields.put styles.base key code }
  | none => styles

/-- Adds a style for a named width, unless its expression is blank. -/
def insertResponsive (styles : Expressions) (bucket key code : String) : Expressions :=
  match Text.trimmed? code with
  | some code =>
    let entries := (Fields.get? styles.responsive bucket).getD []
    { styles with responsive := Fields.put styles.responsive bucket (Fields.put entries key code) }
  | none => styles

def isEmpty (styles : Expressions) : Bool :=
  styles.base.isEmpty && styles.responsive.all fun entry => entry.2.isEmpty

def forWidth (styles : Expressions) (breakpoint : Breakpoint) : Fields String :=
  (Fields.get? styles.responsive breakpoint.bucket).getD []

end Expressions

end BlockLoom.Style
