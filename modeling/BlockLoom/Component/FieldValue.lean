import BlockLoom.Component.Node
import BlockLoom.Text.Blank
import BlockLoom.Text.Search

/-!
The value of one field as it is found in page content: a literal, or an
expression. An expression can be given beside the literal, and then wins, or
inside it, as a text that is nothing but one expression between double braces.
-/

namespace BlockLoom

/-- A literal value or the source of an expression. -/
inductive FieldValue where
  | literal (value : Json)
  | bound (code : String)

namespace FieldValue

/-- The expression of a text of the form `{{ expression }}`. Two such marks in
one text are no single expression. -/
def marked? (text : String) : Option String := do
  let inner ← Text.after? ['\x7b', '\x7b'] (Text.trimList text.toList)
  let inner ← Text.before? ['\x7d', '\x7d'] inner
  if Text.occursIn ['\x7b', '\x7b'] inner || Text.occursIn ['\x7d', '\x7d'] inner then none
  else Text.trimmed? (String.ofList inner)

/-- The value of a field with the given literal and the given expression. -/
def of? (raw : Option Json) (expression : Option String) : Option FieldValue :=
  match expression.filter fun code => !Text.isBlankText code with
  | some code => some (.bound code)
  | none =>
    raw.map fun value =>
      match value.string?.bind marked? with
      | some code => .bound code
      | none => .literal value

end FieldValue

def Node.setField (node : Node) (key : String) (value : FieldValue) : Node :=
  match value with
  | .literal value => node.setProperty key value
  | .bound code => node.setBinding key (.expression code)

end BlockLoom
