import BlockLoom.Decimal
import BlockLoom.Fields

/-!
Values of settings as they are written in files or given by a caller, and how a
value of one kind stands for one of another: words and numbers for truth values,
and truth values and numbers for texts.
-/

namespace BlockLoom.Settings

/-- A value of a setting, or a table of further settings. -/
inductive Value where
  | boolean (value : Bool)
  | integer (value : Int)
  | float (bits : UInt64)
  | text (value : String)
  | list (items : List Value)
  | table (entries : List (String × Value))
  deriving Inhabited

namespace Value

/-- Floating-point numbers are written without exponents. -/
def floatLayout : Decimal.Layout := ⟨400, 400, "", ""⟩

def floatText (bits : UInt64) : String :=
  let value := Float.ofBits bits
  if value.isNaN then "NaN"
  else if value.isInf then if value < 0 then "-inf" else "inf"
  else Decimal.text floatLayout bits

def text? : Value → Option String
  | .text value => some value
  | .boolean value => some (if value then "true" else "false")
  | .integer value => some (toString value)
  | .float bits => some (floatText bits)
  | .list _ | .table _ => none

def wordTruth? (word : String) : Option Bool :=
  let lower := word.map Char.toLower
  if ["1", "true", "on", "yes"].contains lower then some true
  else if ["0", "false", "off", "no"].contains lower then some false
  else none

/-- The truth value that a value stands for: numbers are true unless they are zero. -/
def truth? : Value → Option Bool
  | .boolean value => some value
  | .integer value => some (value != 0)
  | .float bits => some (Float.ofBits bits != 0)
  | .text value => wordTruth? value
  | .list _ | .table _ => none

end Value

end BlockLoom.Settings
