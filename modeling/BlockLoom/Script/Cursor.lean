import BlockLoom.Script.Tree

/-!
Reading a script character by character. A scanner works at a cursor and either
moves it forward or fails without effect, so alternatives can be tried in order.

Blanks and comments may stand between any two tokens. A statement may also end
without a semicolon: at the end of the text, before a closing brace, and at a
line break unless the next line can only continue the statement.
-/

namespace BlockLoom.Script

/-- A place in a script: the number of characters before it and the text after it. -/
structure Cursor where
  offset : Nat
  rest : List Char

namespace Cursor

def advance (cursor : Cursor) (count : Nat) : Cursor :=
  ⟨cursor.offset + count, cursor.rest.drop count⟩

end Cursor

/-! ## Characters -/

/-- Blanks between tokens: the ASCII ones, the Unicode space separators, the line
and paragraph separators, and three characters without width. -/
def isBlank (c : Char) : Bool :=
  let code := c.toNat
  (9 ≤ code && code ≤ 13) || code == 0x20 || code == 0xA0 || code == 0x1680 ||
    (0x2000 ≤ code && code ≤ 0x200B) || code == 0x2028 || code == 0x2029 || code == 0x202F ||
    code == 0x205F || code == 0x2060 || code == 0x3000 || code == 0xFEFF

/-- Blanks that the search for the end of a statement passes over. -/
def isPlainBlank (c : Char) : Bool :=
  (9 ≤ c.toNat && c.toNat ≤ 13) || c == ' '

def isLineEnd (c : Char) : Bool :=
  c == '\n' || c == '\r' || c.toNat == 0x2028 || c.toNat == 0x2029

/-- ASCII characters that are never part of a word. -/
def punctuation : List Char :=
  ":;\x60\"'@#.,|^&<>=+-*/\\%?!~()[]\x7b\x7d".toList

def isWordPart (c : Char) : Bool :=
  32 ≤ c.toNat && !isBlank c && !punctuation.contains c

def isWordStart (c : Char) : Bool :=
  isWordPart c && !c.isDigit

def isHexDigit (c : Char) : Bool :=
  c.isDigit || ('a' ≤ c && c ≤ 'f') || ('A' ≤ c && c ≤ 'F')

/-! ## Lengths of tokens -/

def wordEscape? : List Char → Option Nat
  | '\\' :: 'u' :: '\x7b' :: rest =>
    let digits := rest.takeWhile isHexDigit
    match digits.isEmpty, rest.drop digits.length with
    | false, '\x7d' :: _ => some (digits.length + 4)
    | _, _ => none
  | '\\' :: 'u' :: a :: b :: c :: d :: _ =>
    if [a, b, c, d].all isHexDigit then some 6 else none
  | _ => none

def wordRest : Nat → List Char → Nat
  | 0, _ => 0
  | _, [] => 0
  | fuel + 1, c :: rest =>
    if isWordPart c then wordRest fuel rest + 1
    else
      match wordEscape? (c :: rest) with
      | some length => length + wordRest fuel ((c :: rest).drop length)
      | none => 0

def wordLength (text : List Char) : Nat :=
  match text with
  | [] => 0
  | c :: rest =>
    if isWordStart c then wordRest text.length rest + 1
    else
      match wordEscape? text with
      | some length => length + wordRest text.length (text.drop length)
      | none => 0

/-- The length of a comment in slashes and stars, from after its opening. -/
def blockLength? (count : Nat) : List Char → Option Nat
  | '*' :: '/' :: _ => some (count + 2)
  | _ :: rest => blockLength? (count + 1) rest
  | [] => none

def comment? : List Char → Option Nat
  | '/' :: '/' :: rest => some ((rest.takeWhile fun c => !isLineEnd c).length + 2)
  | '/' :: '*' :: rest => (blockLength? 0 rest).map (· + 2)
  | _ => none

/-- The length of the comment in markup syntax at the start of a text. -/
def markup? (text : List Char) : Option Nat :=
  if "<!--".toList.isPrefixOf text || "-->".toList.isPrefixOf text then
    some (text.takeWhile fun c => !(c == '\n' || c.toNat == 0x2028 || c.toNat == 0x2029)).length
  else none

/-- The length of the blanks and comments at the start of a text. -/
def triviaLength : Nat → List Char → Nat
  | 0, _ => 0
  | fuel + 1, text =>
    let blanks := (text.takeWhile isBlank).length
    let after := text.drop blanks
    match comment? after with
    | some length => blanks + length + triviaLength fuel (after.drop length)
    | none => blanks

namespace Cursor

/-- The place of the next token. -/
def skip (cursor : Cursor) : Cursor :=
  cursor.advance (triviaLength cursor.rest.length cursor.rest)

end Cursor

/-! ## Ends of statements -/

/-- The text after plain blanks and comments, or nothing at a lone slash. -/
def skipPlain : Nat → List Char → Option (List Char)
  | 0, text => some text
  | fuel + 1, text =>
    match text.dropWhile isPlainBlank with
    | '/' :: '/' :: rest => skipPlain fuel (rest.dropWhile (· ≠ '\n'))
    | '/' :: '*' :: rest =>
      match blockLength? 0 rest with
      | some length => skipPlain fuel (rest.drop length)
      | none => some []
    | '/' :: _ => none
    | rest => some rest

/-- Whether a line that starts with the given text starts a statement of its own.
After an expression (`operators`) brackets continue it. -/
def startsStatement (operators : Bool) (text : List Char) : Bool :=
  match text with
  | [] => true
  | '(' :: _ => !operators
  | '[' :: _ => !operators
  | '+' :: rest => rest.head? == some '+'
  | '-' :: rest => rest.head? == some '-'
  | '!' :: rest => rest.head? != some '='
  | 'i' :: 'n' :: rest =>
    match rest with
    | c :: _ =>
      if !c.isAlpha then false
      else
        !("stanceof".toList.isPrefixOf rest &&
          !(((rest.drop 8).head?.map Char.isAlpha).getD false))
    | [] => false
  | c :: _ => !("\x60,.;*%><=?^|&/:".toList.contains c)

/-- Whether a statement may end right here without a semicolon. -/
def endsHere (operators : Bool) : List Char → Bool
  | [] => true
  | '\n' :: rest =>
    match skipPlain (rest.length + 1) rest with
    | some text => startsStatement operators text
    | none => false
  | c :: rest => c == '\x7d' || (isPlainBlank c && endsHere operators rest)

/-- The end of a statement without a semicolon. Comments before that end on the
same line belong to the statement. -/
def impliedEnd? (operators : Bool) : Nat → Cursor → Option Cursor
  | 0, _ => none
  | fuel + 1, cursor =>
    if endsHere operators cursor.rest then some cursor
    else
      let blanks := (cursor.rest.takeWhile isBlank).length
      match comment? (cursor.rest.drop blanks) with
      | some length => impliedEnd? operators fuel (cursor.advance (blanks + length))
      | none => none

/-! ## Scanners -/

/-- A scanner: it moves the cursor and yields a value, or fails. -/
abbrev Scan (α : Type) := StateT Cursor Option α

namespace Scan

variable {α : Type}

def trivia : Scan Unit :=
  modify Cursor.skip

def look : Scan (List Char) := do
  trivia
  return (← get).rest

def pass (count : Nat) : Scan Unit :=
  modify fun cursor => cursor.advance count

def symbol (token : String) : Scan Unit := do
  if token.toList.isPrefixOf (← look) then pass token.length else failure

/-- Moves past the given token unless one of the given continuations makes it another. -/
def symbolUnless (token : String) (longer : List Char) : Scan Unit := do
  symbol token
  match (← get).rest.head? with
  | some c => if longer.contains c then failure
  | none => pure ()

/-- The word at the next token, empty if there is none. -/
def peekWord : Scan String := do
  let text ← look
  return String.ofList (text.take (wordLength text))

/-- Moves past a word and yields it. -/
def word : Scan String := do
  let found ← peekWord
  if found.isEmpty then failure
  pass found.length
  return found

def keyword (expected : String) : Scan Unit := do
  if (← word) ≠ expected then failure

def keywordIn (expected : List String) : Scan Unit := do
  if !expected.contains (← word) then failure

/-- What a scanner yields, or nothing if it fails. -/
def optional? (scan : Scan α) : Scan (Option α) :=
  (do return some (← scan)) <|> pure none

/-- Whether a scanner succeeds; it moves only if it does. -/
def accepts (scan : Scan α) : Scan Bool :=
  (do let _ ← scan; return true) <|> pure false

/-- Fails where a scanner would succeed, and never moves. -/
def absent (scan : Scan α) : Scan Unit := do
  let here ← get
  if ← accepts scan then
    set here
    failure

/-- Runs a scanner as often as it succeeds, at most the given number of times. -/
def manyUpTo : Nat → Scan α → Scan (List α)
  | 0, _ => pure []
  | count + 1, scan => do
    match ← optional? scan with
    | none => return []
    | some value => return value :: (← manyUpTo count scan)

/-- Runs a scanner as often as it succeeds. -/
def many (scan : Scan α) : Scan (List α) := do
  manyUpTo ((← get).rest.length + 1) scan

/-- A node from the given place to the present one. -/
def node (kind : Kind) (start : Cursor) (children : List Tree) : Scan Tree := do
  let stop ← get
  return ⟨kind, start.offset, start.rest.take (stop.offset - start.offset), children⟩

/-- A node from the next token to the end of what the scanner reads. -/
def spanned (kind : Kind) (scan : Scan (List Tree)) : Scan Tree := do
  trivia
  let start ← get
  let children ← scan
  node kind start children

def leaf (kind : Kind) (scan : Scan Unit) : Scan Tree :=
  spanned kind do
    scan
    return []

/-- Fails where a statement may end without a semicolon. -/
def continues : Scan Unit := do
  let cursor ← get
  if (impliedEnd? true (cursor.rest.length + 1) cursor).isSome then failure

/-- The end of a statement, with or without a semicolon. -/
def statementEnd (operators : Bool) : Scan Unit := do
  let cursor ← get
  match impliedEnd? operators (cursor.rest.length + 1) cursor with
  | some stop => set stop
  | none => symbol ";"

/-- A comment in markup syntax at the next token. -/
def markup : Scan Tree := do
  match markup? (← look) with
  | some length => leaf .markup (pass length)
  | none => failure

end Scan

end BlockLoom.Script
