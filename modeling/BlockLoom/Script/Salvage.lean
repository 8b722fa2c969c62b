import BlockLoom.Script.Statement

/-!
Scripts that are not well formed. They are read as far as possible: statements
and expressions where they fit, single tokens where nothing does. A call whose
arguments do not fit is still a call if its end can be told, and a statement
ends at its semicolon even if closing brackets stand before it that close nothing.
-/

namespace BlockLoom.Script

open Scan

/-- A bracket that was opened and not yet closed. -/
def closingOf : Char → Option Char
  | '(' => some ')'
  | '[' => some ']'
  | '\x7b' => some '\x7d'
  | _ => none

/-- Passes one token of any kind and yields its first character. -/
def anyToken (g : Grammar) : Scan Char := do
  match ← look with
  | [] => failure
  | c :: _ =>
    let _ ← string <|> template g <|> number <|> leaf .other (do let _ ← word) <|>
      leaf .other (pass 1)
    return c

/-- Passes tokens up to the end of the innermost bracket that is open, given the
closing brackets expected, innermost first. A closing bracket also closes the
brackets inside its own that were left open. -/
def balance (g : Grammar) : Nat → List Char → Scan Unit
  | 0, _ => failure
  | _, [] => pure ()
  | fuel + 1, expected => do
    let c ← anyToken g
    match closingOf c with
    | some closing => balance g fuel (closing :: expected)
    | none =>
      if c == ')' || c == ']' || c == '\x7d' then
        if expected.contains c then
          balance g fuel ((expected.dropWhile (· ≠ c)).drop 1)
        else balance g fuel expected
      else balance g fuel expected

/-- Passes closing brackets that close nothing. -/
def strayClosings (marks : List String) : Scan Unit := do
  let _ ← many (marks.foldr (fun mark others => symbol mark <|> others) failure)

/-- The arguments of a call that do not fit as a whole. The first counts if the
text after it is at most stray up to the end of the arguments, or if a semicolon
shows that the end is missing. -/
def brokenArguments (g : Grammar) : Scan (List Tree) := do
  symbol "("
  let inner ← get
  (do
    let first ← g.expression Context.inner
    (do
      strayClosings [";", "]", "\x7d"]
      symbol ")") <|> (do
      symbol ","
      balance g (inner.rest.length + 1) [')']) <|> (do
      let here ← get
      symbol ";"
      set here)
    return [first]) <|> (do
    let kind : Kind := if (← look).head? == some '\x7b' then .object else .other
    balance g (inner.rest.length + 1) [')']
    let text := inner.rest.take ((← get).offset - inner.offset)
    return [⟨kind, inner.offset, text, [⟨.broken, inner.offset, text, []⟩]⟩])

def brokenCall (g : Grammar) : Scan Tree := do
  trivia
  let start ← get
  let name ← leaf .identifier (do let _ ← word)
  let callee ← dotted start start.rest.length name
  let given ← spanned .arguments (brokenArguments g)
  node .call start [callee, given]

/-- An expression that stands as a statement with brackets before its end that
close nothing. -/
def brokenStatement (g : Grammar) : Scan Tree := do
  trivia
  let start ← get
  let inner ← (do
      let inner ← expressions g Context.last
      strayClosings [")", "]"]
      statementEnd true
      return inner) <|> (do
      let call ← brokenCall g
      strayClosings [")", "]"]
      statementEnd true
      return call)
  node .expressionStatement start [inner]

/-- What stands before a place in a broken script. -/
inductive Position where
  /-- Nothing that belongs to the same statement. -/
  | fresh
  | afterOperand
  | afterOperator
  deriving DecidableEq

/-- How far the reading of a broken script has got: the closing brackets expected,
innermost first, and what stands before. -/
structure Salvage where
  expected : List Char
  position : Position

namespace Salvage

def first : Salvage := ⟨[], .fresh⟩

/-- The state after a token that starts with the given character and fits no
construct. A semicolon ends whatever parentheses are open before it. -/
def pass (state : Salvage) (c : Char) : Salvage :=
  match closingOf c with
  | some closing => ⟨closing :: state.expected, .fresh⟩
  | none =>
    if c == ';' then ⟨state.expected.dropWhile (· ≠ '\x7d'), .fresh⟩
    else if c == ')' || c == ']' || c == '\x7d' then
      if state.expected.contains c then
        ⟨(state.expected.dropWhile (· ≠ c)).drop 1, .fresh⟩
      else ⟨state.expected, .fresh⟩
    else if state.position == .fresh then state
    else ⟨state.expected, .afterOperator⟩

/-- Whether statements stand here, not just expressions. -/
def inStatements (state : Salvage) : Bool :=
  state.expected.head?.getD '\x7d' == '\x7d'

end Salvage

/-- The parts of a script that is not well formed: statements and expressions, and
single tokens where neither can be read. -/
def salvage (g : Grammar) : Nat → Salvage → Scan (List Tree)
  | 0, _ => pure []
  | fuel + 1, state => do
    match ← look with
    | [] => return []
    | c :: _ =>
      let operand (context : Context) : Scan (Tree × Position) := do
        return (← g.expression context <|> brokenCall g, .afterOperand)
      let statement : Scan (Tree × Position) := do
        return (← g.statement <|> brokenStatement g, .fresh)
      let read :=
        if !state.inStatements then operand Context.inner
        else if state.position == .afterOperator then operand Context.last
        else statement <|> operand Context.last
      let closes := c == ')' || c == ']' || c == '\x7d'
      match ← (if closes then pure none else optional? read) with
      | some (tree, position) => return tree :: (← salvage g fuel ⟨state.expected, position⟩)
      | none =>
        let skipped ← leaf .broken (do let _ ← anyToken g)
        return skipped :: (← salvage g fuel (state.pass c))

end BlockLoom.Script
