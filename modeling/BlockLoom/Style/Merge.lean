import BlockLoom.Script.Object
import BlockLoom.Style.Source

/-!
One expression for all styles of an element. It is an object literal: first the
styles for every width, then for each width one nested object under its media
query. Literal styles for the large width stand among those for every width,
where an expression takes the place of the literal for the same style; so it
does among the styles for the small width.
-/

namespace BlockLoom.Style

/-- All styles of an element in one expression, with a record of those that were literal. -/
structure Merged where
  code : String
  small : Fields Json
  large : Fields Json

namespace Merged

/-- The record of the literal styles by width. -/
def recorded (merged : Merged) : Json :=
  .object
    ((if merged.small.isEmpty then [] else [("small", .object merged.small)]) ++
      (if merged.large.isEmpty then [] else [("large", .object merged.large)]))

end Merged

def surviving (literal : Fields Json) (bound : Fields String) : Fields Json :=
  literal.filter fun entry => !Fields.has bound entry.1

def literalCode (literal : Fields Json) : Fields String :=
  Fields.mapValues Json.compact literal

/-- The nested object for a width, if it has any styles. -/
def queryMember (breakpoint : Breakpoint) (entries : Fields String) : List String :=
  if entries.isEmpty then []
  else [Script.renderMember breakpoint.query (Script.renderObject entries)]

/-- Members between braces, each followed by a comma. -/
def object (members : List String) : String :=
  "\x7b" ++ String.join (members.map fun member => " " ++ member ++ ",") ++ " \x7d"

def merge (literals : Literals) (bound : Expressions) : Option Merged :=
  let largeLiterals := surviving (literals.forWidth .large) bound.base
  let smallLiterals := surviving (literals.forWidth .small) (bound.forWidth .small)
  let base := literalCode largeLiterals ++ bound.base
  let small := literalCode smallLiterals ++ bound.forWidth .small
  let large := bound.forWidth .large
  if base.isEmpty && small.isEmpty && large.isEmpty then none
  else
    let members := base.map fun entry => Script.renderMember entry.1 entry.2
    some
      { code := object (members ++ queryMember .small small ++ queryMember .large large)
        small := smallLiterals
        large := largeLiterals }

end BlockLoom.Style
