import BlockLoom.Script.Grammar

/-!
The tokens of literals: numbers, quoted strings with their escapes, regular
expressions, and template strings with the expressions in them.
-/

namespace BlockLoom.Script

open Scan

/-! ## Numbers -/

def digitRun (digit : Char → Bool) : List Char → Nat
  | [] => 0
  | [c] => if digit c then 1 else 0
  | c :: d :: rest =>
    if !digit c then 0
    else if d == '_' && ((rest.head?.map digit).getD false) then
      match rest with
      | e :: rest => digitRun digit (e :: rest) + 2
      | [] => 1
    else digitRun digit (d :: rest) + 1

def exponentLength : List Char → Nat
  | c :: rest =>
    if c == 'e' || c == 'E' then
      match rest with
      | s :: digits =>
        if s == '+' || s == '-' then
          let run := digitRun Char.isDigit digits
          if run = 0 then 0 else run + 2
        else
          let run := digitRun Char.isDigit (s :: digits)
          if run = 0 then 0 else run + 1
      | [] => 0
    else 0
  | [] => 0

def baseDigit? (letter : Char) : Option (Char → Bool) :=
  if letter == 'x' || letter == 'X' then some isHexDigit
  else if letter == 'o' || letter == 'O' then some fun c => '0' ≤ c && c ≤ '7'
  else if letter == 'b' || letter == 'B' then some fun c => c == '0' || c == '1'
  else none

/-- The length of a number in a base other than ten. -/
def basedLength : List Char → Nat
  | '0' :: letter :: rest =>
    match baseDigit? letter with
    | some digit =>
      let run := digitRun digit rest
      if run = 0 then 0
      else if (rest.drop run).head? == some 'n' then run + 3
      else run + 2
    | none => 0
  | _ => 0

/-- Whether digits may be followed by a fraction or an exponent: zero alone, or
digits with at most one leading zero. -/
def isScalable : List Char → Bool
  | ['0'] => true
  | '0' :: c :: _ => '1' ≤ c && c ≤ '9'
  | c :: _ => '1' ≤ c && c ≤ '9'
  | [] => false

def numberLength (text : List Char) : Nat :=
  let based := basedLength text
  if based ≠ 0 then based
  else
    match text with
    | '.' :: rest =>
      let run := digitRun Char.isDigit rest
      if run = 0 then 0 else run + 1 + exponentLength (rest.drop run)
    | _ =>
      let run := digitRun Char.isDigit text
      let after := text.drop run
      if run = 0 then 0
      else if after.head? == some 'n' then run + 1
      else if !isScalable (text.take run) then run
      else
        match after with
        | '.' :: rest =>
          let fraction := digitRun Char.isDigit rest
          run + 1 + fraction + exponentLength (rest.drop fraction)
        | _ => run + exponentLength after

def number : Scan Tree := do
  let length := numberLength (← look)
  if length = 0 then failure
  leaf .number (pass length)

/-! ## Strings -/

def escapeLength? : List Char → Option Nat
  | '\\' :: 'x' :: a :: b :: _ => if isHexDigit a && isHexDigit b then some 4 else none
  | '\\' :: 'u' :: rest => wordEscape? ('\\' :: 'u' :: rest)
  | '\\' :: 'x' :: _ => none
  | '\\' :: c :: rest =>
    if '0' ≤ c ∧ c ≤ '7' then
      some (((c :: rest).take 3).takeWhile fun d => '0' ≤ d && d ≤ '7').length.succ
    else if c == '\r' || c == '?' then
      match rest with
      | d :: _ => if d == '\n' || d.toNat == 0x2028 || d.toNat == 0x2029 then some 3 else some 2
      | [] => some 2
    else some 2
  | _ => none

def hexValue (c : Char) : Nat :=
  if c.isDigit then c.toNat - '0'.toNat
  else if 'a' ≤ c ∧ c ≤ 'f' then c.toNat - 'a'.toNat + 10
  else c.toNat - 'A'.toNat + 10

/-- The character with the code point written by hexadecimal digits, if there is one. -/
def hexChar? (digits : List Char) : Option Char :=
  let code := digits.foldl (fun value c => 16 * value + hexValue c) 0
  if digits.isEmpty then none
  else if h : code.isValidChar then some (Char.ofNatAux code h)
  else none

/-- What an escape sequence stands for. An octal escape counts by its first digit. -/
def unescape? : List Char → Option (List Char)
  | '\\' :: c :: rest =>
    if c == 'n' then some ['\n']
    else if c == 't' then some ['\t']
    else if c == 'r' then some ['\r']
    else if c == 'b' then some ['\x08']
    else if c == 'f' then some ['\x0c']
    else if c == 'v' then some ['\x0b']
    else if c == '0' then some ['\x00']
    else if c == 'x' || c == 'u' then (hexChar? (rest.filter isHexDigit)).map fun d => [d]
    else if isLineEnd c then some []
    else some [c]
  | _ => none

/-- The length of a string from after its opening quote, and its value. A line
break is only allowed before the closing quote, where blanks and comments may
follow it. -/
def stringBody (quote : Char) : Nat → List Char → Option (Nat × Option (List Char))
  | 0, _ => none
  | _, [] => none
  | fuel + 1, c :: rest =>
    if c == quote then some (1, some [])
    else if c == '\\' then
      match escapeLength? (c :: rest) with
      | none => none
      | some length =>
        match stringBody quote fuel ((c :: rest).drop length) with
        | none => none
        | some (count, value) =>
          some (count + length,
            match unescape? ((c :: rest).take length), value with
            | some chars, some value => some (chars ++ value)
            | _, _ => none)
    else if c == '\n' || c == '\r' then
      let skipped := triviaLength (rest.length + 1) (c :: rest)
      if ((c :: rest).drop skipped).head? == some quote then some (skipped + 1, some []) else none
    else
      match stringBody quote fuel rest with
      | none => none
      | some (count, value) => some (count + 1, value.map (c :: ·))

def string : Scan Tree := do
  match ← look with
  | [] => failure
  | quote :: rest =>
    if quote == '"' || quote == '\'' then
      match stringBody quote (rest.length + 1) rest with
      | some (count, value) => leaf (.string (value.map String.ofList)) (pass (count + 1))
      | none => failure
    else failure

/-! ## Regular expressions -/

/-- The length of a class in brackets, from after the opening bracket. -/
def classLength? (count : Nat) : List Char → Option Nat
  | ']' :: _ => some (count + 1)
  | '\\' :: c :: rest => if c == '\n' then none else classLength? (count + 2) rest
  | c :: rest => if c == '\n' || c == '\\' then none else classLength? (count + 1) rest
  | [] => none

/-- The length of a pattern up to its closing slash, from after the opening one. -/
def patternLength? : Nat → List Char → Option Nat
  | 0, _ => none
  | _, [] => none
  | fuel + 1, c :: rest =>
    if c == '/' then some 0
    else if c == '\n' then none
    else if c == '\\' then
      match rest with
      | d :: rest => if d == '\n' then none else (patternLength? fuel rest).map (· + 2)
      | [] => none
    else if c == '[' then
      match classLength? 0 rest with
      | some length => (patternLength? fuel (rest.drop length)).map (· + (length + 1))
      | none => none
    else (patternLength? fuel rest).map (· + 1)

def regex : Scan Tree := do
  match ← look with
  | '/' :: rest =>
    match patternLength? (rest.length + 1) rest with
    | some length =>
      if length = 0 then failure
      let flags := (rest.drop (length + 1)).takeWhile Char.isLower
      leaf .other (pass (length + 2 + flags.length))
    | none => failure
  | _ => failure

/-! ## Templates -/

def templateText : List Char → Nat
  | '$' :: '\x7b' :: _ => 0
  | c :: rest => if c == '\x60' || c == '\\' then 0 else templateText rest + 1
  | [] => 0

/-- The next part of a template: plain text, an escape, or an expression in braces. -/
def templatePart (g : Grammar) : Scan Tree := do
  let here ← get
  match here.rest with
  | '$' :: '\x7b' :: _ =>
    pass 2
    let inner ← separated (g.expression Context.inner) ","
    symbol "\x7d"
    node .other here inner
  | '\\' :: _ =>
    match escapeLength? here.rest with
    | some length =>
      pass length
      node .other here []
    | none => failure
  | text =>
    let length := templateText text
    if length = 0 then failure
    pass length
    node .other here []

def template (g : Grammar) : Scan Tree :=
  spanned .other do
    symbol "\x60"
    let parts ← many (templatePart g)
    match (← get).rest with
    | '\x60' :: _ => pass 1
    | _ => failure
    return parts

end BlockLoom.Script
