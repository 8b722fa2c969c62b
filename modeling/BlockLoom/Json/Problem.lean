import BlockLoom.Json.Writer
import BlockLoom.Text.Quoted

/-!
What can be wrong with JSON text or with the data in it, and how each problem
is worded. Problems of the text are found while reading it; problems of the
data mean that a well-formed value does not have the shape that was asked for.
-/

namespace BlockLoom.Json

/-- What stands where something of another kind was expected. -/
inductive Found where
  | null
  | bool (value : Bool)
  | number (value : Number)
  | string (value : String)
  | sequence
  | map

def Found.describe : Found → String
  | .null => "null"
  | .bool true => "boolean `true`"
  | .bool false => "boolean `false`"
  | .number (.integer value) => "integer `" ++ toString value ++ "`"
  | .number (.binary bits) => "floating point `" ++ Decimal.text Number.layout bits ++ "`"
  | .string value => "string " ++ Text.quoted value
  | .sequence => "sequence"
  | .map => "map"

def found : Json → Found
  | .null => .null
  | .bool value => .bool value
  | .number value => .number value
  | .string value => .string value
  | .array _ => .sequence
  | .object _ => .map

/-- Why text or data was refused. -/
inductive Problem where
  | listUnfinished
  | objectUnfinished
  | stringUnfinished
  | valueUnfinished
  | colonExpected
  | listSeparatorExpected
  | objectSeparatorExpected
  | wordExpected
  | valueExpected
  | badEscape
  | badNumber
  | numberOutOfRange
  | controlCharacter
  | keyNotString
  | loneSurrogate
  | trailingComma
  | trailingCharacters
  | escapeUnfinished
  | tooDeep
  | wrongKind (found : Found) (expected : String)
  | wrongCount (count : Nat) (expected : String)
  | missingField (name : String)
  | duplicateField (name : String)
  | unknownOption (name : String) (options : List String)

/-- A choice of names in backquotes: two with `or`, more after `one of`. -/
def describeOptions (options : List String) : String :=
  let ticked := options.map fun name => "`" ++ name ++ "`"
  match ticked with
  | [one] => one
  | [one, other] => one ++ " or " ++ other
  | several => "one of " ++ ", ".intercalate several

/-- The wording of a problem, without its place in a text. -/
def Problem.describe : Problem → String
  | .listUnfinished => "EOF while parsing a list"
  | .objectUnfinished => "EOF while parsing an object"
  | .stringUnfinished => "EOF while parsing a string"
  | .valueUnfinished => "EOF while parsing a value"
  | .colonExpected => "expected `:`"
  | .listSeparatorExpected => "expected `,` or `]`"
  | .objectSeparatorExpected => "expected `,` or `\x7d`"
  | .wordExpected => "expected ident"
  | .valueExpected => "expected value"
  | .badEscape => "invalid escape"
  | .badNumber => "invalid number"
  | .numberOutOfRange => "number out of range"
  | .controlCharacter => "control character (\\u0000-\\u001F) found while parsing a string"
  | .keyNotString => "key must be a string"
  | .loneSurrogate => "lone leading surrogate in hex escape"
  | .trailingComma => "trailing comma"
  | .trailingCharacters => "trailing characters"
  | .escapeUnfinished => "unexpected end of hex escape"
  | .tooDeep => "recursion limit exceeded"
  | .wrongKind found expected => "invalid type: " ++ found.describe ++ ", expected " ++ expected
  | .wrongCount count expected =>
    "invalid length " ++ toString count ++ ", expected " ++ expected
  | .missingField name => "missing field `" ++ name ++ "`"
  | .duplicateField name => "duplicate field `" ++ name ++ "`"
  | .unknownOption name options =>
    "unknown variant `" ++ name ++ "`, expected " ++ describeOptions options

/-- A problem found in a text: the text that was still unread, and how many
bytes of it belong to the offending place. -/
structure Fault where
  problem : Problem
  unread : List Char
  extra : Nat

def byteCount (text : List Char) : Nat :=
  text.foldl (fun count c => count + c.utf8Size) 0

/-- Line and column after the first `bytes` bytes of a text: lines count from
one, and the column is the number of bytes since the last line break. -/
def lineColumn (bytes : Nat) : List Char → Nat → Nat → Nat × Nat
  | [], line, column => (line, column)
  | c :: rest, line, column =>
    if bytes = 0 then (line, column)
    else if c = '\n' then lineColumn (bytes - 1) rest (line + 1) 0
    else if bytes ≤ c.utf8Size then (line, column + bytes)
    else lineColumn (bytes - c.utf8Size) rest line (column + c.utf8Size)

/-- The wording of a fault in the given text, with its place. -/
def Fault.describe (source : List Char) (fault : Fault) : String :=
  let bytes := byteCount source - byteCount fault.unread + fault.extra
  let (line, column) := lineColumn bytes source 1 0
  fault.problem.describe ++ " at line " ++ toString line ++ " column " ++ toString column

end BlockLoom.Json
