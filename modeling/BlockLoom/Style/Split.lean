import BlockLoom.Script.Constant
import BlockLoom.Style.Source

/-!
Taking the one expression for all styles apart again, into literal styles and
expressions for single styles. Styles whose values are objects are dropped, apart
from the nested objects under the media queries of the known widths.
-/

namespace BlockLoom.Style

/-- Styles taken apart: literals by width, and expressions by the path of the
binding they belong to. -/
structure Parts where
  literals : Literals := []
  bindings : Fields String := []
  deriving Inhabited

def basePath (key : String) : String :=
  "style." ++ key

def responsivePath (breakpoint : Breakpoint) (key : String) : String :=
  "responsiveStyles." ++ breakpoint.bucket ++ "." ++ key

/-- The literal that a style stands for. With a record of the literals that were
merged, a style is literal if it was recorded and its source is unchanged;
without one, every string and number is literal. -/
def literal? (recorded : Option Json) (breakpoint : Breakpoint) (key code : String) :
    Option Json :=
  match recorded with
  | some recorded =>
    (((recorded.get? breakpoint.bucket).bind fun bucket => bucket.get? key)).filter fun value =>
      value.compact == Text.trim code
  | none => (Script.literalValue? code).filter fun value => value.isString || value.isNumber

def startsObject (code : String) : Bool :=
  code.toList.head? == some '\x7b'

namespace Parts

def addBinding (parts : Parts) (path code : String) : Parts :=
  { parts with bindings := Fields.put parts.bindings path code }

def addLiteral (parts : Parts) (breakpoint : Breakpoint) (key : String) (value : Json) : Parts :=
  { parts with literals := parts.literals.insert breakpoint key value }

/-- Adds a style from the nested object for a width. Literals for the large width
are never found there. -/
def addResponsive (recorded : Option Json) (breakpoint : Breakpoint) (parts : Parts) :
    Script.Entry → Parts
  | .property key code =>
    if startsObject code then parts
    else
      let literal :=
        match breakpoint with
        | .small => literal? recorded .small key code
        | .large => none
      match literal with
      | some value => parts.addLiteral breakpoint key value
      | none => parts.addBinding (responsivePath breakpoint key) code
  | _ => parts

/-- Adds a member of the outer object. -/
def add (recorded : Option Json) (parts : Parts) : Script.Entry → Parts
  | .property key code =>
    match Breakpoint.ofQuery? key with
    | some breakpoint =>
      ((Script.readObject? code).getD []).foldl (addResponsive recorded breakpoint) parts
    | none =>
      if startsObject code then parts
      else
        match literal? recorded .large key code with
        | some value => parts.addLiteral .large key value
        | none => parts.addBinding (basePath key) code
  | _ => parts

end Parts

/-- Takes the expression for all styles apart, into literals and bindings for single styles. Nothing
is left of one that is no object. -/
def split (code : String) (recorded : Option Json) : Parts :=
  ((Script.readObject? code).getD []).foldl (Parts.add recorded) {}

end BlockLoom.Style
