import BlockLoom.Script.Cursor

/-!
The grammar as an open recursion. Each module below reads one family of
constructs and is given scanners for the constructs that may stand inside; the
whole language is the limit of this, in which every level may nest one construct
deeper than the level before.
-/

namespace BlockLoom.Script

structure Context where
  /-- A statement may end right after the expression. -/
  ending : Bool
  /-- A colon after parentheses may start the result type of an arrow function. -/
  arrowTypes : Bool

namespace Context

def inner : Context := ⟨false, true⟩

def last : Context := ⟨true, true⟩

end Context

/-- Scanners for the constructs that may stand inside others. -/
structure Grammar where
  expression : Context → Scan Tree
  statement : Scan Tree
  block : Scan Tree
  type : Scan Unit
  pattern : Scan Tree
  /-- Type parameters, parameters and result type of a function, with the parts of the parameters. -/
  signature : Scan (List Tree)

namespace Grammar

/-- The grammar in which nothing can be read. -/
def none : Grammar where
  expression _ := failure
  statement := failure
  block := failure
  type := failure
  pattern := failure
  signature := failure

end Grammar

namespace Scan

variable {α : Type}

/-- Elements between commas up to a closing bracket. Commas may repeat, and
elements between them may be left out. -/
def elements (scan : Scan α) (closing : String) : Scan (List α) := do
  let first ← optional? scan
  let others ← many do
    symbol ","
    optional? scan
  symbol closing
  return (first :: others).filterMap id

/-- One or more elements with single commas between them. -/
def separated (scan : Scan α) (comma : String) : Scan (List α) := do
  let first ← scan
  let others ← many do
    symbol comma
    scan
  return first :: others

/-- Elements between single commas up to a closing bracket; the last comma may be followed by it. -/
def closed (scan : Scan α) (closing : String) : Scan (List α) := do
  if ← accepts (symbol closing) then return []
  let items ← separated scan ","
  let _ ← accepts (symbol ",")
  symbol closing
  return items

end Scan

end BlockLoom.Script
