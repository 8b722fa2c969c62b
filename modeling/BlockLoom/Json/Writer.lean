import BlockLoom.Json.Value
import BlockLoom.Decimal

/-!
JSON text. Values are written either compactly or with two blanks of
indentation for each level; both layouts share the spelling of scalars.
-/

namespace BlockLoom.Json

/-- Floating-point numbers have at most sixteen digits before the point and four
zeros after it, `.0` if they are whole, and a signed exponent otherwise. -/
def Number.layout : Decimal.Layout := ⟨16, 4, ".0", "+"⟩

def Number.text : Number → String
  | .integer value => toString value
  | .binary bits => Decimal.text layout bits

/-- The four hexadecimal digits of a control character. -/
def hexQuad (code : Nat) : List Char :=
  let digits := Nat.toDigits 16 code
  List.replicate (4 - digits.length) '0' ++ digits

/-- One character as it stands between the quotes of a string. -/
def escapeChar (c : Char) : List Char :=
  match c with
  | '"' => ['\\', '"']
  | '\\' => ['\\', '\\']
  | '\x08' => ['\\', 'b']
  | '\x0c' => ['\\', 'f']
  | '\n' => ['\\', 'n']
  | '\r' => ['\\', 'r']
  | '\t' => ['\\', 't']
  | c => if c.toNat < 32 then '\\' :: 'u' :: hexQuad c.toNat else [c]

def quote (value : String) : String :=
  String.ofList ('"' :: value.toList.flatMap escapeChar ++ ['"'])

/-- The white space of a layout: what stands before a member at some depth, and
what stands between a key's colon and its value. -/
inductive Layout where
  | compact
  | indented
  deriving DecidableEq, Repr

namespace Layout

/-- The layout for indented or dense text. -/
def ofPretty (pretty : Bool) : Layout :=
  if pretty then .indented else .compact

/-- The break before a member or a closing bracket at the given depth. -/
def newline (layout : Layout) (depth : Nat) : String :=
  match layout with
  | .compact => ""
  | .indented => "\n" ++ String.ofList (List.replicate (2 * depth) ' ')

def colon : Layout → String
  | .compact => ":"
  | .indented => ": "

end Layout

mutual

/-- The text of a value that stands at the given depth. -/
def render (layout : Layout) (depth : Nat) : Json → String
  | .null => "null"
  | .bool true => "true"
  | .bool false => "false"
  | .number value => value.text
  | .string value => quote value
  | .array [] => "[]"
  | .array (item :: items) =>
    "[" ++ layout.newline (depth + 1) ++ render layout (depth + 1) item ++
      renderItems layout (depth + 1) items ++ layout.newline depth ++ "]"
  | .object [] => "\x7b\x7d"
  | .object ((key, value) :: members) =>
    "\x7b" ++ layout.newline (depth + 1) ++ quote key ++ layout.colon ++
      render layout (depth + 1) value ++ renderMembers layout (depth + 1) members ++
      layout.newline depth ++ "\x7d"

/-- The items after the first, each behind a comma. -/
def renderItems (layout : Layout) (depth : Nat) : List Json → String
  | [] => ""
  | item :: items =>
    "," ++ layout.newline depth ++ render layout depth item ++ renderItems layout depth items

/-- The members after the first, each behind a comma. -/
def renderMembers (layout : Layout) (depth : Nat) : List (String × Json) → String
  | [] => ""
  | (key, value) :: members =>
    "," ++ layout.newline depth ++ quote key ++ layout.colon ++ render layout depth value ++
      renderMembers layout depth members

end

/-- The text without any white space. -/
def compact (value : Json) : String :=
  render .compact 0 value

end BlockLoom.Json
