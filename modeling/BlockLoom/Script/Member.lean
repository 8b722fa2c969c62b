import BlockLoom.Script.Types

/-!
Members of objects and classes: their keys, the words that may stand before a
key, parameters, and the patterns that parameters and declarations bind.
-/

namespace BlockLoom.Script

open Scan

/-! ## Keys -/

/-- The key of a member: a bare name, a private name, a string, a number, or an
expression in brackets. -/
def memberKey (g : Grammar) : Scan Tree := do
  match ← look with
  | [] => failure
  | c :: rest =>
    if c == '"' || c == '\'' then string
    else if c == '[' then
      spanned .other do
        symbol "["
        let inner ← g.expression Context.inner
        symbol "]"
        return [inner]
    else if c == '#' then
      leaf .other do
        symbol "#"
        let _ ← word
    else if c.isDigit || (c == '.' && (rest.head?.map Char.isDigit).getD false) then number
    else leaf .name do
      let _ ← word

/-- Whether a key or a star stands at the next token. -/
def keyFollows : Scan Unit := do
  match ← look with
  | c :: rest =>
    if !(isWordStart c || c.isDigit || "\"'[#*".toList.contains c ||
        (wordEscape? (c :: rest)).isSome) then failure
  | [] => failure

/-- A word before a key that changes what the member is; the same word may also
be the key itself. -/
def modifierIn (names : List String) : Scan String := do
  let found ← word
  if !names.contains found then failure
  let here ← get
  keyFollows
  set here
  return found

/-! ## Patterns -/

/-- An initial value after an equals sign. -/
def initializer (g : Grammar) (context : Context) : Scan Tree := do
  symbolUnless "=" ['=', '>']
  g.expression context

def defaulted (g : Grammar) (pattern : Scan Tree) : Scan Tree :=
  spanned .other do
    let bound ← pattern
    let value ← optional? (initializer g Context.inner)
    return bound :: value.toList

def objectPattern (g : Grammar) : Scan Tree :=
  spanned .other do
    symbol "\x7b"
    elements ((spanned .other do
        symbol "..."
        return [← g.pattern])
      <|> (spanned .other do
        let key ← memberKey g
        symbol ":"
        return [key, ← defaulted g g.pattern])
      <|> defaulted g (leaf .other do let _ ← word)) "\x7d"

def arrayPattern (g : Grammar) : Scan Tree :=
  spanned .other do
    symbol "["
    elements (defaulted g g.pattern) "]"

/-- A pattern that takes a value apart. -/
def destructuring (g : Grammar) : Scan Tree :=
  objectPattern g <|> arrayPattern g

def binding (g : Grammar) : Scan Tree :=
  destructuring g <|> leaf .identifier (do let _ ← word)

/-! ## Arguments and decorators -/

def spread (g : Grammar) : Scan Tree :=
  spanned .spread do
    symbol "..."
    return [← g.expression Context.inner]

def callArguments (g : Grammar) : Scan Tree :=
  spanned .arguments do
    symbol "("
    elements (spread g <|> g.expression Context.inner) ")"

def propertyName : Scan Tree :=
  leaf .name do
    let _ ← accepts (symbol "#")
    let _ ← word

/-- An owner with the names of properties after it. -/
def dotted (start : Cursor) : Nat → Tree → Scan Tree
  | 0, owner => pure owner
  | count + 1, owner =>
    (do
      symbol "."
      let next ← node .property start [owner, ← propertyName]
      dotted start count next) <|> pure owner

/-- A decorator: the name of a function or a call of it, or an expression in parentheses. -/
def decorator (g : Grammar) : Scan Tree :=
  spanned .other do
    symbol "@"
    (do
      symbol "("
      let inner ← g.expression Context.inner
      symbol ")"
      return [inner])
    <|> (do
      trivia
      let start ← get
      let name ← leaf .identifier (do let _ ← word)
      let callee ← dotted start start.rest.length name
      (do
        let _ ← accepts (typeArguments g)
        let given ← callArguments g
        return [← node .call start [callee, given]]) <|> return [callee])

/-! ## Parameters -/

/-- A parameter with its modifiers, ascription and default value. -/
def parameter (g : Grammar) : Scan Tree :=
  spanned .other do
    let decorators ← many (decorator g)
    let before (names : List String) : Scan Bool := accepts do
      keywordIn names
      let here ← get
      match ← look with
      | c :: _ => if !(isWordStart c || c == '\x7b' || c == '[' || c == '.') then failure
      | [] => failure
      set here
    let _ ← before ["public", "private", "protected"]
    let _ ← before ["override"]
    let _ ← before ["readonly"]
    let bound ← g.pattern
    let _ ← accepts (symbolUnless "?" ['.', '?'])
    let _ ← accepts (ascription g)
    let value ← optional? (initializer g Context.inner)
    return decorators ++ bound :: value.toList

def parameters (g : Grammar) : Scan (List Tree) := do
  symbol "("
  closed (parameter g) ")"

/-- Type parameters, parameters and result type of a function. -/
def readSignature (g : Grammar) : Scan (List Tree) := do
  let _ ← accepts (typeParameters g)
  let found ← parameters g
  let _ ← accepts do
    symbol ":"
    resultType g
  return found

/-! ## Objects -/

def objectMethod (g : Grammar) : Scan Tree := do
  trivia
  let start ← get
  let _ ← optional? (modifierIn ["public", "private", "protected"])
  let _ ← optional? (modifierIn ["static"])
  let _ ← optional? (modifierIn ["override"])
  let _ ← optional? (modifierIn ["readonly"])
  let _ ← optional? (modifierIn ["async"])
  let access ← optional? (modifierIn ["get", "set"])
  if access.isNone then
    let _ ← accepts (symbol "*")
  let key ← memberKey g
  let _ ← accepts (symbol "?")
  let given ← g.signature
  let body ← g.block
  let role : Role :=
    match access with
    | some "get" => .getter
    | some "set" => .setter
    | _ => .plain
  node (.method role) start (key :: given ++ [body])

def objectMember (g : Grammar) : Scan Tree := do
  match ← look with
  | '.' :: '.' :: '.' :: _ =>
    spread g
  | _ =>
    (spanned .pair do
      let key ← memberKey g
      symbol ":"
      return [key, ← g.expression Context.inner])
    <|> objectMethod g
    <|> leaf .shorthand (do let _ ← word)

def object (g : Grammar) : Scan Tree :=
  spanned .object do
    symbol "\x7b"
    let members ← elements (do
      let before ← many markup
      return before ++ [← objectMember g]) "\x7d"
    return members.flatten

end BlockLoom.Script
