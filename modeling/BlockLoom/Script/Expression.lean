import BlockLoom.Script.Member

/-!
Expressions. Operators are read without regard to their precedence: the parts of
an expression are kept in order, and only the outermost form is told apart where
it matters (a call, a property, a negation, a function, a literal).

A word is taken as a keyword only where the keyword could stand; anywhere else
it is an ordinary name.
-/

namespace BlockLoom.Script

open Scan

/-! ## Operators -/

/-- Operators that take what follows as the value of an assignment. -/
def assignments : List String :=
  ["&&=", "||=", "??=", "**=", "<<=", ">>>=", ">>=", "+=", "-=", "*=", "/=", "%=", "&=", "|=", "^="]

/-- Operators between two operands, longest first. -/
def operators : List String :=
  [">>>", "===", "!==", "**", "==", "!=", "<=", ">=", "&&", "||", "??", "<<", ">>",
    "+", "-", "*", "/", "%", "<", ">", "&", "|", "^"]

def wordOperators : List String := ["instanceof", "in"]

def startsWithAny (tokens : List String) (text : List Char) : Option String :=
  tokens.find? fun token => token.toList.isPrefixOf text

def operator : Scan Unit := do
  let text ← look
  if (startsWithAny assignments text).isSome then failure
  match startsWithAny operators text with
  | some token => pass token.length
  | none => keywordIn wordOperators

def assignmentOperator : Scan Unit := do
  match startsWithAny assignments (← look) with
  | some token => pass token.length
  | none => symbolUnless "=" ['=', '>']

def isAssignable (tree : Tree) : Bool :=
  match tree.kind with
  | .identifier | .property | .place | .group => true
  | _ => false

/-! ## Lists of expressions -/

/-- An expression, or several with commas between them as one node. -/
def expressions (g : Grammar) (context : Context) : Scan Tree := do
  trivia
  let start ← get
  let items ← separated (g.expression context) ","
  match items with
  | [item] => return item
  | items => node .other start items

def array (g : Grammar) : Scan Tree :=
  spanned .array do
    symbol "["
    elements (spread g <|> g.expression Context.inner) "]"

/-- Parentheses around an expression, which may carry a type, or around several
expressions. -/
def group (g : Grammar) : Scan Tree :=
  spanned .group do
    symbol "("
    let inner ← expressions g Context.inner
    let type ← optional? (leaf .other (ascription g))
    symbol ")"
    return inner :: type.toList

/-! ## Functions -/

def arrowBody (g : Grammar) (context : Context) : Scan Tree := do
  symbol "=>"
  match ← look with
  | '\x7b' :: _ => g.block <|> g.expression context
  | _ => g.expression context

/-- An arrow function of the given shape of parameters. -/
def arrow (g : Grammar) (context : Context) (start : Cursor) (given : Scan (List Tree)) :
    Scan Tree := do
  let given ← given
  let body ← arrowBody g context
  node .function start (given ++ [body])

/-- A function after the word that names it. -/
def functionRest (g : Grammar) (start : Cursor) : Scan Tree := do
  let _ ← accepts (symbol "*")
  let _ ← accepts word
  let given ← g.signature
  let body ← g.block
  node .function start (given ++ [body])

/-! ## Classes -/

/-- Words that may stand before a member of a class. -/
def classModifiers : List String :=
  ["declare", "public", "private", "protected", "static", "override", "readonly", "abstract",
    "accessor", "async"]

def classMemberEnd : Scan Unit := do
  if !(← accepts (symbol ";" <|> symbol ",")) then
    let here ← get
    match impliedEnd? true (here.rest.length + 1) here with
    | some stop => set stop
    | none => failure

def classMember (g : Grammar) : Scan Tree :=
  (leaf .other (symbol ";"))
    <|> decorator g
    <|> (spanned .other do
      keyword "static"
      return [← g.block])
    <|> (leaf .other do
      let _ ← many (modifierIn classModifiers)
      indexKey g
      classMemberEnd)
    <|> (spanned .other do
      let _ ← many (modifierIn classModifiers)
      let access ← optional? (modifierIn ["get", "set"])
      if access.isNone then
        let _ ← accepts (symbol "*")
      let key ← memberKey g
      let _ ← accepts (symbol "?" <|> symbolUnless "!" ['='])
      (do
        let given ← g.signature
        let body ← optional? g.block
        match body with
        | some body =>
          let _ ← accepts (symbol ";")
          return key :: given ++ [body]
        | none =>
          classMemberEnd
          return key :: given) <|> (do
        let _ ← accepts (ascription g)
        let value ← optional? (initializer g Context.last)
        classMemberEnd
        return key :: value.toList))

def classBody (g : Grammar) : Scan Tree :=
  spanned .other do
    symbol "\x7b"
    let members ← many (classMember g)
    symbol "\x7d"
    return members

/-! ## Suffixes -/

def afterTypeArguments : Scan Unit := do
  let text ← look
  match text with
  | [] => pure ()
  | c :: rest =>
    if c.isDigit || "\"'\x7b~@#".toList.contains c then failure
    else if c == '!' && rest.head? != some '=' then failure
    else
      let name := String.ofList (text.take (wordLength text))
      if !(name.isEmpty || ["instanceof", "in", "as", "satisfies", "of"].contains name) then
        failure

def index (g : Grammar) : Scan Tree := do
  symbol "["
  let found ← expressions g Context.inner
  symbol "]"
  return found

def typedArguments (g : Grammar) : Scan Tree := do
  let _ ← accepts (typeArguments g)
  callArguments g

/-- One suffix after an operand; `calls` tells whether it may be a call. -/
def suffix (g : Grammar) (context : Context) (calls : Bool) (start : Cursor) (base : Tree) :
    Scan Tree := do
  if context.ending then continues
  match ← look with
  | '.' :: '.' :: _ => failure
  | '.' :: _ =>
    symbol "."
    let name ← propertyName
    node .property start [base, name]
  | '?' :: '.' :: c :: _ =>
    if c.isDigit || !calls then failure
    symbol "?."
    (do
      let given ← typedArguments g
      node .call start [base, given])
      <|> (do
        let found ← index g
        node .place start [base, found])
      <|> (do
        let name ← propertyName
        node .property start [base, name])
  | '[' :: _ =>
    let found ← index g
    node .place start [base, found]
  | '(' :: _ =>
    if !calls then failure
    let given ← callArguments g
    node .call start [base, given]
  | '\x60' :: _ =>
    let text ← template g
    node .call start [base, text]
  | '!' :: '=' :: _ => failure
  | '!' :: _ =>
    symbol "!"
    node .place start [base]
  | '+' :: '+' :: _ =>
    if !calls then failure
    symbol "++"
    node .other start [base]
  | '-' :: '-' :: _ =>
    if !calls then failure
    symbol "--"
    node .other start [base]
  | '<' :: _ =>
    if !calls then failure
    typeArguments g
    (do
      let given ← callArguments g
      node .call start [base, given])
      <|> (do
        let here ← get
        afterTypeArguments
        set here
        node .other start [base])
  | _ => failure

def suffixes (g : Grammar) (context : Context) (calls : Bool) (start : Cursor) :
    Nat → Tree → Scan Tree
  | 0, base => pure base
  | count + 1, base => do
    match ← optional? (suffix g context calls start base) with
    | some next => suffixes g context calls start count next
    | none => return base

/-- A class after the word that names it. -/
def classRest (g : Grammar) : Scan (List Tree) := do
  let _ ← accepts do
    let name ← word
    if name == "extends" || name == "implements" then failure
  let _ ← accepts (typeParameters g)
  let bases ← optional? do
    keyword "extends"
    separated (do
      trivia
      let start ← get
      let first ← group g <|> leaf .identifier (do let _ ← word)
      let parent ← suffixes g Context.inner true start start.rest.length first
      let _ ← accepts (typeArguments g)
      return parent) ","
  let _ ← accepts do
    keyword "implements"
    separated g.type ","
  let body ← classBody g
  return bases.getD [] ++ [body]

/-! ## Operands -/

def valueWords : List String := ["this", "super", "undefined"]

/-- Parentheses: a group, or the parameters of an arrow function. -/
def parenthesized (g : Grammar) (context : Context) (start : Cursor) : Scan Tree := do
  let lambda : Scan Tree := arrow g context start g.signature
  match ← optional? (group g) with
  | none => lambda
  | some found =>
    let here ← get
    match ← look with
    | '=' :: '>' :: _ =>
      set start
      lambda
    | ':' :: _ =>
      if context.arrowTypes then
        set start
        lambda <|> (do
          set here
          return found)
      else
        set here
        return found
    | _ =>
      set here
      return found

def wordOperand (g : Grammar) (context : Context) (start : Cursor) (name : String) :
    Scan Tree := do
  let named : Scan Tree := leaf .identifier do
    let _ ← word
  match name with
  | "true" => leaf (.boolean true) (keyword name)
  | "false" => leaf (.boolean false) (keyword name)
  | "null" => leaf .null (keyword name)
  | "function" =>
    keyword name
    functionRest g start
  | "class" =>
    keyword name
    let parts ← classRest g
    node .other start parts
  | "new" =>
    (do
      keyword name
      symbol "."
      keyword "target"
      node .other start [])
    <|> (do
      keyword name
      trivia
      let inside ← get
      let first ← (do
          let found ← peekWord
          if ["function", "class", "true", "false", "null", "new"].contains found then
            g.expression Context.inner
          else leaf .identifier (do let _ ← word))
        <|> group g <|> array g <|> object g <|> template g <|> string <|> number
      let made ← suffixes g Context.inner false inside inside.rest.length first
      let _ ← accepts (typeArguments g)
      let given ← optional? (callArguments g)
      node .other start (made :: given.toList))
    <|> named
  | "import" =>
    keyword name
    match ← look with
    | '(' :: _ => node .other start []
    | '.' :: _ => node .other start []
    | _ => failure
  | "namespace" =>
    (do
      keyword name
      dottedName <|> (do let _ ← string)
      let body ← g.block
      node .other start [body]) <|> (do
      set start
      arrow g context start (do
        let _ ← word
        return [])) <|> named
  | "async" =>
    (do
      keyword name
      keyword "function"
      functionRest g start)
    <|> (do
      keyword name
      arrow g context start (do
        let parameter ← leaf .identifier (do let _ ← word)
        return [parameter]))
    <|> (do
      keyword name
      arrow g context start g.signature)
    <|> (arrow g context start (do
      let _ ← word
      return []))
    <|> named
  | "await" | "typeof" | "void" | "delete" | "yield" => failure
  | _ =>
    if valueWords.contains name then named
    else
      let operand ← named
      let here ← get
      match ← look with
      | '=' :: '>' :: _ => arrow g context start (pure [operand])
      | _ =>
        set here
        return operand

def bareOperand (g : Grammar) (context : Context) (start : Cursor) : Scan Tree := do
  match ← look with
  | [] => failure
  | c :: rest =>
    if c == '(' then parenthesized g context start
    else if c == '[' then array g
    else if c == '\x7b' then object g
    else if c == '"' || c == '\'' then string
    else if c == '\x60' then template g
    else if c == '/' then regex
    else if c == '@' then
      let decorators ← many (decorator g)
      keyword "class"
      let parts ← classRest g
      node .other start (decorators ++ parts)
    else if c == '#' then
      let name ← leaf .other do
        symbol "#"
        let _ ← word
      let here ← get
      keyword "in"
      set here
      return name
    else if c.isDigit || (c == '.' && (rest.head?.map Char.isDigit).getD false) then number
    else
      let name ← peekWord
      if name.isEmpty then failure
      wordOperand g context start name

/-- The words and signs before an operand. -/
def prefixSign : Scan String := do
  match ← look with
  | '+' :: '+' :: _ =>
    pass 2
    return "++"
  | '-' :: '-' :: _ =>
    pass 2
    return "--"
  | c :: _ =>
    if "!~+-".toList.contains c then
      pass 1
      return c.toString
    else
      let name ← word
      if ["typeof", "void", "delete", "await"].contains name then return name else failure
  | [] => failure

def yielding (g : Grammar) (context : Context) (start : Cursor) : Scan Tree := do
  keyword "yield"
  (do
    symbol "*"
    let value ← g.expression context
    node .other start [value])
  <|> (do
    if context.ending then continues
    let value ← g.expression context
    node .other start [value])
  <|> node .other start []

def assertion (g : Grammar) (operand : Scan Tree) (start : Cursor) : Scan Tree := do
  typeArguments g
  let value ← operand
  node .other start [value]

/-- An operand with its suffixes, and the assignment to it if one follows. -/
def place (g : Grammar) (context : Context) : Scan Tree := do
  trivia
  let start ← get
  (do
    let base ← bareOperand g context start
    let found ← suffixes g context true start start.rest.length base
    let value ← optional? do
      if !isAssignable found then failure
      if context.ending then continues
      assignmentOperator
      g.expression context
    match value with
    | some value => node .other start [found, value]
    | none =>
      let here ← get
      if found.kind == .object || found.kind == .array then
        absent (symbolUnless "=" ['=', '>'])
      set here
      return found)
  <|> (do
    let bound ← destructuring g
    symbolUnless "=" ['=', '>']
    let value ← g.expression context
    node .other start [bound, value])

def wrapSigns : List (Cursor × String) → Tree → Scan Tree
  | [], operand => pure operand
  | (start, sign) :: signs, operand => do
    let inner ← wrapSigns signs operand
    node (if sign == "-" then .negation else .other) start [inner]

/-- An operand with what stands before it. -/
def operand (g : Grammar) (context : Context) : Scan Tree := do
  let signs ← many do
    trivia
    let start ← get
    return (start, ← prefixSign)
  trivia
  let start ← get
  let inner ←
    match ← look with
    | '<' :: _ =>
      (arrow g context start g.signature) <|> assertion g (g.expression context) start
    | _ =>
      if (← peekWord) == "yield" then yielding g context start else place g context
  wrapSigns signs inner

/-! ## Whole expressions -/

/-- What follows an operand: an operator and another operand, a type after `as`
or `satisfies`, or both ends of a choice. -/
def continuation (g : Grammar) (context : Context) : Scan (List Tree) := do
  if context.ending then continues
  (do
    keywordIn ["as", "satisfies"]
    keyword "const" <|> g.type
    return [])
  <|> (do
    operator
    return [← operand g context])
  <|> (do
    symbolUnless "?" ['?', '.'] <|> (do
      match ← look with
      | '?' :: '.' :: c :: _ => if c.isDigit then pass 1 else failure
      | _ => failure)
    let chosen (arrowTypes : Bool) : Scan Tree := do
      let yes ← g.expression ⟨false, arrowTypes⟩
      symbol ":"
      return yes
    let yes ← chosen true <|> chosen false
    return [yes, ← g.expression context])

def readExpression (g : Grammar) (context : Context) : Scan Tree := do
  let skipped ← many markup
  trivia
  let start ← get
  let first ← operand g context
  let others ← many (continuation g context)
  match others with
  | [] => if skipped.isEmpty then return first else node .other start [first]
  | others => node .other start (first :: others.flatten)

/-- What a parameter binds: a pattern, the rest of the parameters, or any place. -/
def readPattern (g : Grammar) : Scan Tree :=
  (spanned .other do
    symbol "..."
    return [← g.pattern])
  <|> destructuring g
  <|> (do
    trivia
    let start ← get
    let base ← leaf .identifier (do let _ ← word)
    let found ← suffixes g Context.inner true start start.rest.length base
    if !isAssignable found then failure
    return found)

end BlockLoom.Script
