import BlockLoom.Script.Expression

/-!
Statements and declarations. A declaration keeps the expressions in it in order;
an expression that stands as a statement is a node of its own, from its first
character to the end of the statement.
-/

namespace BlockLoom.Script

open Scan

def condition (g : Grammar) : Scan Tree :=
  group g

/-- A variable with its ascription and initial value. -/
def declarator (g : Grammar) : Scan Tree :=
  spanned .other do
    let bound ← binding g
    let _ ← accepts (symbolUnless "!" ['='])
    let _ ← accepts (ascription g)
    let value ← optional? (initializer g Context.last)
    return bound :: value.toList

/-- Variables after the word that declares them. -/
def declarators (g : Grammar) : Scan (List Tree) := do
  let found ← separated (declarator g) ","
  statementEnd true
  return found

def fromClause : Scan Unit := do
  keyword "from"
  let _ ← string

def importAttributes (g : Grammar) : Scan Unit := do
  keywordIn ["with", "assert"]
  let _ ← object g

/-- A name or text that a module gives to others. -/
def exportedName : Scan Unit :=
  (do let _ ← string) <|> (do let _ ← word)

/-- Names in braces, each with another name after `as` if it gets one. -/
def nameList : Scan Unit := do
  symbol "\x7b"
  let _ ← closed (do
    (do
      keywordIn ["type", "typeof"]
      exportedName) <|> exportedName
    let _ ← accepts do
      keyword "as"
      exportedName) "\x7d"

def importClause : Scan Unit :=
  nameList
  <|> (do
    symbol "*"
    keyword "as"
    let _ ← word)
  <|> (do
    let _ ← word
    let _ ← accepts do
      symbol ","
      nameList <|> (do
        symbol "*"
        keyword "as"
        let _ ← word))

/-- An import statement after its first word. -/
def importRest (g : Grammar) : Scan (List Tree) :=
  (do
    let _ ← string
    let _ ← accepts (importAttributes g)
    statementEnd false
    return [])
  <|> (do
    let _ ← accepts do
      keywordIn ["type", "typeof"]
      absent fromClause
    importClause
    fromClause
    let _ ← accepts (importAttributes g)
    statementEnd false
    return [])
  <|> (do
    let _ ← accepts (keyword "type")
    let _ ← word
    symbol "="
    (do
      keyword "require"
      symbol "("
      let _ ← string
      symbol ")") <|> dottedName
    statementEnd false
    return [])

def caseBody (g : Grammar) : Scan (List Tree) := do
  symbol ":"
  many (do
    absent (do
      keyword "default"
      symbol ":")
    absent (do
      keyword "case"
      absent (symbol ":" <|> symbol "=" <|> symbol "."))
    g.statement)

def switchCase (g : Grammar) : Scan Tree :=
  (spanned .other do
    keyword "case"
    let value ← expressions g Context.inner
    return value :: (← caseBody g))
  <|> (spanned .other do
    keyword "default"
    caseBody g)

/-- The head of a loop over the items of a value. -/
def eachHead (g : Grammar) : Scan (List Tree) := do
  symbol "("
  let bound ← (do
      keywordIn ["var", "let", "const", "using"]
      let bound ← binding g
      let value ← optional? (initializer g Context.inner)
      return bound :: value.toList)
    <|> (do return [← g.pattern])
    <|> (do return [← group g])
  keywordIn ["in", "of"]
  let items ← expressions g Context.inner
  symbol ")"
  return bound ++ [items]

def countHead (g : Grammar) : Scan (List Tree) := do
  symbol "("
  let first ← (do
      keywordIn ["var", "let", "const"]
      let found ← separated (declarator g) ","
      symbol ";"
      return found)
    <|> (do
      let found ← optional? (expressions g Context.inner)
      symbol ";"
      return found.toList)
  let test ← optional? (expressions g Context.inner)
  symbol ";"
  let step ← optional? (expressions g Context.inner)
  symbol ")"
  return first ++ test.toList ++ step.toList

/-- An optional label and the end of the statement. -/
def jumpEnd : Scan Unit :=
  statementEnd false <|> (do
    let _ ← word
    statementEnd true)

/-- The rest of a named function: a body, or nothing for a mere signature. -/
def namedFunction (g : Grammar) : Scan (List Tree) := do
  let _ ← accepts (symbol "*")
  let _ ← word
  let given ← g.signature
  match ← look with
  | '\x7b' :: _ => return given ++ [← g.block]
  | _ =>
    statementEnd false
    return given

def enumMember (g : Grammar) : Scan Tree :=
  spanned .other do
    let key ← memberKey g
    let value ← optional? (initializer g Context.inner)
    return key :: value.toList

/-- An enumeration after its first word. -/
def enumRest (g : Grammar) : Scan (List Tree) := do
  let _ ← word
  symbol "\x7b"
  closed (enumMember g) "\x7d"

/-- An interface after its first word. -/
def interfaceRest (g : Grammar) : Scan Unit := do
  let _ ← word
  let _ ← accepts (typeParameters g)
  let _ ← accepts do
    keyword "extends"
    separated g.type ","
  objectType g

/-- A named type after its first word. -/
def aliasRest (g : Grammar) : Scan Unit := do
  let _ ← word
  let _ ← accepts (typeParameters g)
  symbolUnless "=" ['=', '>']
  g.type
  statementEnd true

/-- A module or namespace after its first word. -/
def moduleRest (g : Grammar) : Scan (List Tree) := do
  dottedName <|> (do let _ ← string)
  let body ← optional? g.block
  if body.isNone then statementEnd false
  return body.toList

def expressionStatement (g : Grammar) : Scan Tree := do
  trivia
  let start ← get
  let inner ← expressions g Context.last
  statementEnd true
  node .expressionStatement start [inner]

def labelled (g : Grammar) : Scan Tree :=
  spanned .other do
    let _ ← word
    symbol ":"
    return [← g.statement]

def nameFollows : Scan Unit := do
  let here ← get
  let name ← word
  if ["in", "instanceof", "of", "as", "satisfies", "extends"].contains name then failure
  set here

/-- A function or class declaration, as it may follow `export default`. -/
def valueDeclaration (g : Grammar) (name : String) : Scan (List Tree) := do
  match name with
  | "function" =>
    keyword name
    namedFunction g
  | "async" =>
    keyword name
    keyword "function"
    namedFunction g
  | "class" =>
    keyword name
    nameFollows
    classRest g
  | "abstract" =>
    keyword name
    keyword "class"
    classRest g
  | _ => failure

/-- An export after its first word. -/
def exportRest (g : Grammar) : Scan (List Tree) := do
  match ← peekWord with
  | "default" =>
    keyword "default"
    (do
      let name ← peekWord
      valueDeclaration g name)
    <|> (do
      keyword "interface"
      interfaceRest g
      return [])
    <|> (do
      let value ← g.expression Context.last
      statementEnd true
      return [value])
  | "" =>
    (do
      symbol "*"
      let _ ← accepts do
        keyword "as"
        exportedName
      fromClause
      statementEnd false
      return [])
    <|> (do
      nameList
      let _ ← accepts fromClause
      statementEnd false
      return [])
    <|> (do
      symbolUnless "=" ['=', '>']
      let value ← g.expression Context.last
      statementEnd true
      return [value])
    <|> (do return [← g.statement])
  | name =>
    if name == "as" then
      keyword name
      keyword "namespace"
      let _ ← word
      statementEnd false
      return []
    else
      (do
        keyword "type"
        nameList
        let _ ← accepts fromClause
        statementEnd false
        return [])
      <|> (do return [← g.statement])

def wordStatement (g : Grammar) (name : String) : Scan Tree := do
  let plain : Scan Tree := labelled g <|> expressionStatement g
  let form (parts : Scan (List Tree)) : Scan Tree := spanned .other do
    keyword name
    parts
  match name with
  | "var" => form (declarators g)
  | "const" =>
    form (do
      (do
        keyword "enum"
        enumRest g) <|> declarators g)
  | "let" =>
    form (do
      absent (keywordIn ["in", "instanceof", "of", "as", "satisfies"])
      declarators g) <|> plain
  | "if" =>
    form do
      let test ← condition g
      let yes ← g.statement
      let no ← optional? do
        keyword "else"
        g.statement
      return test :: yes :: no.toList
  | "switch" =>
    form do
      let value ← condition g
      symbol "\x7b"
      let cases ← many (switchCase g)
      symbol "\x7d"
      return value :: cases
  | "for" =>
    form do
      let _ ← accepts (keyword "await")
      let head ← eachHead g <|> countHead g
      return head ++ [← g.statement]
  | "while" =>
    form do
      let test ← condition g
      return [test, ← g.statement]
  | "do" =>
    form do
      let body ← g.statement
      keyword "while"
      let test ← condition g
      let _ ← accepts (statementEnd false)
      return [body, test]
  | "try" =>
    form do
      let body ← g.block
      let handler ← optional? do
        keyword "catch"
        let bound ← optional? do
          symbol "("
          let bound ← binding g
          let _ ← accepts (ascription g)
          symbol ")"
          return bound
        return bound.toList ++ [← g.block]
      let finish ← optional? do
        keyword "finally"
        g.block
      return body :: handler.getD [] ++ finish.toList
  | "with" =>
    form do
      let value ← condition g
      return [value, ← g.statement]
  | "break" => form (do jumpEnd; return [])
  | "continue" => form (do jumpEnd; return [])
  | "debugger" => form (do statementEnd false; return [])
  | "return" =>
    form do
      let here ← get
      if (impliedEnd? false (here.rest.length + 1) here).isSome then
        statementEnd false
        return []
      else
        let value ← optional? (expressions g Context.last)
        statementEnd true
        return value.toList
  | "throw" =>
    form do
      let value ← expressions g Context.last
      statementEnd true
      return [value]
  | "import" => form (importRest g) <|> expressionStatement g
  | "export" => form (exportRest g) <|> plain
  | "function" =>
    (do
      let declared ← accepts do
        let here ← get
        keyword name
        let _ ← accepts (symbol "*")
        let _ ← word
        set here
      if declared then form (namedFunction g) else expressionStatement g)
  | "class" =>
    (do
      let declared ← accepts do
        let here ← get
        keyword name
        nameFollows
        set here
      if declared then form (classRest g) else expressionStatement g)
  | "async" =>
    (do
      let declared ← accepts do
        let here ← get
        keyword name
        keyword "function"
        let _ ← accepts (symbol "*")
        let _ ← word
        set here
      if declared then
        form do
          keyword "function"
          namedFunction g
      else plain)
  | "abstract" =>
    form do
      keyword "class"
      classRest g
  | "enum" => form (enumRest g)
  | "interface" => form (do interfaceRest g; return [])
  | "type" => form (do aliasRest g; return []) <|> plain
  | "namespace" => form (moduleRest g) <|> plain
  | "module" => form (moduleRest g) <|> plain
  | "declare" =>
    form (do
      (do
        keyword "global"
        return [← g.block]) <|> (do
        nameFollows
        return [← g.statement])) <|> plain
  | _ => plain

def readBlock (g : Grammar) : Scan Tree :=
  spanned .other do
    symbol "\x7b"
    let statements ← many g.statement
    symbol "\x7d"
    return statements

def readStatement (g : Grammar) : Scan Tree := do
  let _ ← many markup
  match ← look with
  | [] => failure
  | ';' :: _ => leaf .other (symbol ";")
  | '\x7b' :: _ => g.block <|> expressionStatement g
  | '@' :: _ =>
    (spanned .other do
      let first ← decorator g
      let others ← many (decorator g)
      return first :: others ++ [← g.statement]) <|> expressionStatement g
  | c :: rest =>
    if isWordStart c || (wordEscape? (c :: rest)).isSome then
      wordStatement g (← peekWord)
    else expressionStatement g

end BlockLoom.Script
