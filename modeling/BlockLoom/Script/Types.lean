import BlockLoom.Script.Literal

/-!
Types. They are recognised and passed over; nothing in them is looked at.
-/

namespace BlockLoom.Script

open Scan

def typeArguments (g : Grammar) : Scan Unit := do
  symbol "<"
  let _ ← separated g.type ","
  let _ ← accepts (symbol ",")
  symbol ">"

def typeParameters (g : Grammar) : Scan Unit := do
  symbol "<"
  let _ ← separated (do
    let _ ← accepts do
      keyword "const"
      absent (symbolUnless "=" ['>'] <|> symbol "," <|> symbol ">" <|> keyword "extends")
    let _ ← word
    let _ ← accepts do
      keyword "extends"
      g.type
    let _ ← accepts do
      symbolUnless "=" ['>']
      g.type) ","
  let _ ← accepts (symbol ",")
  symbol ">"

def dottedName : Scan Unit := do
  let _ ← word
  let _ ← many do
    symbol "."
    let _ ← word

def queried (g : Grammar) : Scan Unit := do
  let _ ← accepts do
    keyword "import"
    symbol "("
    let _ ← string
    symbol ")"
    symbol "."
  let _ ← word
  let _ ← many ((do
      symbol "?." <|> symbol "."
      (do let _ ← word) <|> (do symbol "#"; let _ ← word))
    <|> (do symbol "["; let _ ← string <|> number; symbol "]")
    <|> (do symbol "("; let _ ← closed (g.expression Context.inner) ")"))
  let _ ← accepts (typeArguments g)

def memberName (g : Grammar) : Scan Unit :=
  (do let _ ← string <|> number)
    <|> (do
      symbol "["
      let _ ← g.expression Context.inner
      symbol "]")
    <|> (do
      symbol "#"
      let _ ← word)
    <|> (do let _ ← word)

/-- A bracketed key of an object type: an index signature or a mapped type. -/
def indexKey (g : Grammar) : Scan Unit := do
  let _ ← accepts do
    let _ ← accepts (symbol "+" <|> symbol "-")
    keyword "readonly"
  symbol "["
  let _ ← word
  (do
    keyword "in"
    g.type
    let _ ← accepts do
      keyword "as"
      g.type) <|> (do
    symbol ":"
    g.type)
  symbol "]"
  let _ ← accepts do
    let _ ← accepts (symbol "+" <|> symbol "-")
    symbol "?"
  let _ ← accepts do
    symbol ":"
    g.type

def typeMember (g : Grammar) : Scan Unit :=
  indexKey g
    <|> (do
      let modifier (names : List String) : Scan Bool := accepts do
        keywordIn names
        absent (symbol ":" <|> symbol "(" <|> symbol "<" <|> symbol "?" <|> symbol ";" <|>
          symbol "," <|> symbol "\x7d")
      let _ ← modifier ["public", "private", "protected"]
      let _ ← modifier ["static"]
      let _ ← modifier ["override"]
      let _ ← modifier ["readonly"]
      let _ ← modifier ["async"]
      let _ ← modifier ["get", "set"]
      memberName g
      let _ ← accepts (symbol "?")
      (do let _ ← g.signature) <|> (do
        let _ ← accepts do
          symbol ":"
          g.type))
    <|> (do
      let _ ← accepts (keyword "abstract")
      let _ ← accepts (keyword "new")
      let _ ← g.signature)

def typeMemberEnd : Scan Unit := do
  if !(← accepts (symbol "," <|> symbol ";")) then
    let here ← get
    match impliedEnd? false (here.rest.length + 1) here with
    | some stop => set stop
    | none => failure

def objectType (g : Grammar) : Scan Unit := do
  let bar ← accepts (symbol "\x7b|")
  if !bar then symbol "\x7b"
  let _ ← accepts (symbol "," <|> symbol ";")
  let _ ← many do
    typeMember g
    typeMemberEnd
  symbol (if bar then "|\x7d" else "\x7d")

def tupleMember (g : Grammar) : Scan Unit :=
  (do
    let _ ← accepts (symbol "...")
    let _ ← word
    let _ ← accepts (symbol "?")
    symbol ":"
    g.type)
    <|> (do
      let _ ← accepts (symbol "...")
      g.type
      let _ ← accepts (symbol "?"))

def typeTemplate (g : Grammar) : Scan Unit := do
  symbol "\x60"
  let _ ← many do
    match (← get).rest with
    | '$' :: '\x7b' :: _ =>
      pass 2
      g.type
      symbol "\x7d"
    | text =>
      let length := templateText text
      if length = 0 then failure
      pass length
  match (← get).rest with
  | '\x60' :: _ => pass 1
  | _ => failure

def functionType (g : Grammar) : Scan Unit := do
  let _ ← accepts (keyword "abstract")
  let _ ← accepts (keyword "new")
  let _ ← accepts (typeParameters g)
  match ← look with
  | '(' :: _ => pure ()
  | _ => failure
  let _ ← g.signature
  symbol "=>"
  let _ ← accepts do
    keyword "asserts"
    absent (symbol "=>")
  g.type
  let _ ← accepts do
    keyword "is"
    g.type

/-- A type without operators around it. -/
def primaryType (g : Grammar) : Scan Unit := do
  match ← look with
  | '(' :: _ =>
    symbol "("
    g.type
    symbol ")"
  | '\x7b' :: _ => objectType g
  | '[' :: _ =>
    symbol "["
    let _ ← closed (tupleMember g) "]"
  | '"' :: _ =>
    let _ ← string
  | '\'' :: _ =>
    let _ ← string
  | '\x60' :: _ => typeTemplate g
  | '-' :: _ =>
    symbol "-"
    let _ ← number
  | '+' :: _ =>
    symbol "+"
    let _ ← number
  | '*' :: _ => symbol "*"
  | '?' :: _ =>
    symbol "?"
    g.type
  | c :: _ =>
    if c.isDigit then
      let _ ← number
    else
      let name ← peekWord
      if name == "keyof" || name == "readonly" then
        (do
          keyword name
          g.type) <|> dottedName
      else if name == "unique" then
        (do
          keyword name
          keyword "symbol") <|> dottedName
      else if name == "infer" then
        (do
          keyword name
          let _ ← word
          let _ ← accepts do
            keyword "extends"
            g.type) <|> dottedName
      else if name == "typeof" then
        keyword name
        queried g
      else
        dottedName
        let _ ← accepts (typeArguments g)
  | [] => failure

/-- A type with the array and index brackets after it, on the same line. -/
def postfixType (g : Grammar) : Scan Unit := do
  primaryType g
  let _ ← many do
    symbol "["
    let _ ← accepts g.type
    symbol "]"

/-- Types joined by bars and ampersands; the first may be preceded by one. -/
def joinedType (g : Grammar) : Scan Unit := do
  let join : Scan Unit := symbolUnless "|" ['|', '=', '\x7d'] <|> symbolUnless "&" ['&', '=']
  let _ ← accepts join
  postfixType g
  let _ ← many do
    join
    functionType g <|> postfixType g

def readType (g : Grammar) : Scan Unit := do
  functionType g <|> joinedType g
  let _ ← accepts do
    keyword "extends"
    g.type
    symbol "?"
    g.type
    symbol ":"
    g.type

/-- The type after a colon that tells what a function returns. -/
def resultType (g : Grammar) : Scan Unit := do
  (do
    keyword "asserts"
    let _ ← word
    let _ ← accepts do
      keyword "is"
      g.type)
    <|> (do
      let _ ← word
      keyword "is"
      g.type)
    <|> g.type

def ascription (g : Grammar) : Scan Unit := do
  symbol ":"
  g.type

end BlockLoom.Script
