import BlockLoom.Settings.Value

/-!
Settings files in TOML. A file is a list of lines: keys with values, headers
that open a table, and headers that add a table to a list of tables. A table can
be defined once only, by a header, by dotted keys, or as one value, and no key
can be given twice.
-/

namespace BlockLoom.Settings.Toml

/-! ## Characters -/

/-- A reader takes text off the front of what is unread, or refuses it. -/
abbrev Reader (α : Type) := StateT (List Char) Option α

def isBlank (c : Char) : Bool :=
  c == ' ' || c == '\t'

/-- Characters that no comment and no string may hold as they are. -/
def isControl (c : Char) : Bool :=
  (c.toNat < 32 && c != '\t') || c.toNat == 127

def isKeyChar (c : Char) : Bool :=
  c.isAlphanum || c == '_' || c == '-'

/-- The characters at the front that satisfy a condition. -/
def takeWhile (condition : Char → Bool) : Reader (List Char) := fun text =>
  some (text.takeWhile condition, text.dropWhile condition)

def skipBlanks : Reader Unit := do
  let _ ← takeWhile isBlank

def token (expected : String) : Reader Unit := fun text =>
  if expected.toList.isPrefixOf text then some ((), text.drop expected.length) else none

def tokenIf (expected : String) : Reader Bool := fun text =>
  if expected.toList.isPrefixOf text then some (true, text.drop expected.length)
  else some (false, text)

def anyChar : Reader Char := fun text =>
  match text with
  | [] => none
  | c :: rest => some (c, rest)

def lineBreak : Reader Unit :=
  token "\n" <|> token "\r\n"

def comment : Reader Unit := do
  token "#"
  let _ ← takeWhile fun c => !isControl c

/-- Blanks, line breaks and comments. -/
def skipLines : Nat → Reader Unit
  | 0 => skipBlanks
  | fuel + 1 => do
    skipBlanks
    (do
      comment <|> lineBreak
      skipLines fuel) <|> pure ()

def lineEnd : Reader Unit := do
  skipBlanks
  comment <|> pure ()
  match ← get with
  | [] => pure ()
  | _ => lineBreak

/-! ## Strings -/

def codePoint (digits : Nat) : Reader (List Char) := fun text =>
  let code := text.take digits
  let digit (c : Char) : Option Nat :=
    if c.isDigit then some (c.toNat - '0'.toNat)
    else if 'a' ≤ c ∧ c ≤ 'f' then some (c.toNat - 'a'.toNat + 10)
    else if 'A' ≤ c ∧ c ≤ 'F' then some (c.toNat - 'A'.toNat + 10)
    else none
  if code.length < digits then none
  else
    match code.foldlM (fun value c => (digit c).map fun digit => 16 * value + digit) 0 with
    | some value => if value.isValidChar then some ([Char.ofNat value], text.drop digits) else none
    | none => none

def escape : Reader (List Char) := do
  match ← anyChar with
  | 'b' => return ['\x08']
  | 't' => return ['\t']
  | 'n' => return ['\n']
  | 'f' => return ['\x0c']
  | 'r' => return ['\r']
  | '"' => return ['"']
  | '\\' => return ['\\']
  | 'u' => codePoint 4
  | 'U' => codePoint 8
  | _ => failure

/-- The rest of a string on one line. Backslashes mean something between double quotes only. -/
def lineString (quote : Char) : Nat → Reader (List Char)
  | 0 => failure
  | fuel + 1 => do
    let c ← anyChar
    if c = quote then return []
    else if isControl c then failure
    else if c = '\\' && quote = '"' then
      let found ← escape
      return found ++ (← lineString quote fuel)
    else return c :: (← lineString quote fuel)

/-- A backslash at the end of a line, with all white space after it. -/
def foldedBreak (fuel : Nat) : Reader Unit := do
  skipBlanks
  lineBreak
  let rec blankLines : Nat → Reader Unit
    | 0 => pure ()
    | fuel + 1 => do
      skipBlanks
      (do
        lineBreak
        blankLines fuel) <|> pure ()
  blankLines fuel

/-- The rest of a string over several lines. It may end in one or two quotes of
its own before the closing ones. -/
def blockString (quote : Char) : Nat → Reader (List Char)
  | 0 => failure
  | fuel + 1 => do
    let text ← get
    let quotes := (text.takeWhile (· = quote)).length
    if quotes ≥ 6 then failure
    else if quotes ≥ 3 then
      set (text.drop quotes)
      return List.replicate (quotes - 3) quote
    else
      (do
        lineBreak
        return '\n' :: (← blockString quote fuel))
      <|> (do
        let c ← anyChar
        if c = '\\' && quote = '"' then
          (do
            foldedBreak fuel
            blockString quote fuel)
          <|> (do
            let found ← escape
            return found ++ (← blockString quote fuel))
        else if isControl c then failure
        else return c :: (← blockString quote fuel))

def quoted : Reader String := do
  let fuel := (← get).length + 1
  match ← anyChar with
  | '"' => return String.ofList (← lineString '"' fuel)
  | '\'' => return String.ofList (← lineString '\'' fuel)
  | _ => failure

/-- A quoted text on one or several lines. -/
def string : Reader String := do
  let fuel := (← get).length + 1
  let block (quote : Char) : Reader String := do
    let _ ← (do lineBreak; return true) <|> pure false
    return String.ofList (← blockString quote fuel)
  if ← tokenIf "\"\"\"" then block '"'
  else if ← tokenIf "'''" then block '\''
  else quoted

/-! ## Keys -/

def bareKey : Reader String := do
  let key ← takeWhile isKeyChar
  if key.isEmpty then failure else return String.ofList key

/-- A key, possibly of several parts with dots between them. -/
def dottedKey : Nat → Reader (List String)
  | 0 => failure
  | fuel + 1 => do
    skipBlanks
    let key ← bareKey <|> quoted
    skipBlanks
    if ← tokenIf "." then return key :: (← dottedKey fuel) else return [key]

/-! ## Numbers and times -/

def digits (digit : Char → Bool) : Nat → Reader (List Char)
  | 0 => failure
  | fuel + 1 => do
    let run ← takeWhile digit
    if run.isEmpty then failure
    else if ← tokenIf "_" then return run ++ (← digits digit fuel)
    else return run

def digitValue (c : Char) : Nat :=
  if c.isDigit then c.toNat - '0'.toNat else c.toLower.toNat - 'a'.toNat + 10

def numeral (base : Nat) (digits : List Char) : Nat :=
  digits.foldl (fun value c => base * value + digitValue c) 0

/-- Integers are limited to 64 bits with a sign. -/
def integer (value : Int) : Reader Value :=
  if -9223372036854775808 ≤ value ∧ value ≤ 9223372036854775807 then pure (.integer value)
  else failure

/-- A minus sign, or a plus sign or none. -/
def negative : Reader Bool := do
  if ← tokenIf "-" then return true
  let _ ← tokenIf "+"
  return false

def isHex (c : Char) : Bool :=
  c.isDigit || ('a' ≤ c.toLower && c.toLower ≤ 'f')

def based : Reader Value := do
  let fuel := (← get).length + 1
  if ← tokenIf "0x" then integer (numeral 16 (← digits isHex fuel))
  else if ← tokenIf "0o" then
    integer (numeral 8 (← digits (fun c => '0' ≤ c && c ≤ '7') fuel))
  else if ← tokenIf "0b" then integer (numeral 2 (← digits (fun c => c == '0' || c == '1') fuel))
  else failure

def decimal : Reader Value := do
  let fuel := (← get).length + 1
  let minus ← negative
  let signed (value : Float) : Value := .float (if minus then -value else value).toBits
  if ← tokenIf "inf" then return signed (1.0 / 0.0)
  else if ← tokenIf "nan" then return signed (0.0 / 0.0)
  else
    let whole ← digits Char.isDigit fuel
    if whole.length > 1 && whole.head? == some '0' then failure
    let fraction ← (do
        token "."
        digits Char.isDigit fuel) <|> pure []
    let exponent ← (do
        token "e" <|> token "E"
        let minus ← negative
        let value := numeral 10 (← digits Char.isDigit fuel)
        return some (if minus then -(value : Int) else value)) <|> pure none
    match fraction, exponent with
    | [], none =>
      let value : Int := numeral 10 whole
      integer (if minus then -value else value)
    | fraction, exponent =>
      let scale : Int := exponent.getD 0 - fraction.length
      let mantissa := numeral 10 (whole ++ fraction)
      let value :=
        if mantissa = 0 then 0.0
        else if scale > 400 then 1.0 / 0.0
        else if scale < -(400 + (whole ++ fraction).length : Int) then 0.0
        else Float.ofScientific mantissa (scale < 0) scale.natAbs
      if value.isInf then failure else return signed value

/-- So many digits, as a number of at least and at most the given sizes. -/
def field (count least most : Nat) : Reader (List Char) := fun text =>
  let found := text.take count
  let value := numeral 10 found
  if found.length = count ∧ found.all Char.isDigit ∧ least ≤ value ∧ value ≤ most then
    some (found, text.drop count)
  else none

def daysIn (year month : Nat) : Nat :=
  if month = 2 then
    if year % 4 = 0 ∧ (year % 100 ≠ 0 ∨ year % 400 = 0) then 29 else 28
  else if [4, 6, 9, 11].contains month then 30
  else 31

def date : Reader (List Char) := do
  let year ← field 4 0 9999
  token "-"
  let month ← field 2 1 12
  token "-"
  let day ← field 2 1 (daysIn (numeral 10 year) (numeral 10 month))
  return year ++ '-' :: month ++ '-' :: day

def time : Reader (List Char) := do
  let hour ← field 2 0 23
  token ":"
  let minute ← field 2 0 59
  token ":"
  let second ← field 2 0 60
  let fraction ← (do
      token "."
      let found ← takeWhile Char.isDigit
      if found.isEmpty then failure
      return found) <|> pure []
  let kept := ((fraction.take 9).reverse.dropWhile (· = '0')).reverse
  let shown := if fraction.isEmpty then [] else '.' :: (if kept.isEmpty then ['0'] else kept)
  return hour ++ ':' :: minute ++ ':' :: second ++ shown

def offset : Reader (List Char) :=
  (do
    token "Z" <|> token "z"
    return ['Z'])
  <|> (do
    let sign ← anyChar
    if sign ≠ '+' ∧ sign ≠ '-' then failure
    let hour ← field 2 0 23
    token ":"
    let minute ← field 2 0 59
    return sign :: hour ++ ':' :: minute)

/-- A date, a time, or both; its value is its text. -/
def moment : Reader Value := do
  let shown ← (do
      let day ← date
      (do
        token "T" <|> token "t" <|> token " "
        let hour ← time
        let zone ← offset <|> pure []
        return day ++ 'T' :: hour ++ zone) <|> pure day)
    <|> time
  return .text (String.ofList shown)

/-! ## Tables -/

/-- Where a table comes from: a header of its own, the headers of tables inside
it, or dotted keys. -/
inductive Origin where
  | header
  | inner
  | dotted
  deriving DecidableEq

/-- What a key stands for while a file is read. -/
inductive Item where
  | value (value : Value)
  | table (origin : Origin) (entries : List (String × Item))
  | tables (items : List (List (String × Item)))

abbrev Entries := Fields Item

/-- Changes the table at a path, of which missing parts are added with the given
origin. Dotted keys do not enter tables with a header. -/
def changeAt (origin : Origin) (change : Origin → Entries → Option Entries) :
    List String → Origin → Entries → Option Entries
  | [], own, entries => change own entries
  | key :: path, _, entries =>
    match Fields.get? entries key with
    | none =>
      (changeAt origin change path origin []).map fun inner =>
        Fields.put entries key (.table origin inner)
    | some (.value _) => none
    | some (.table own inner) =>
      if origin = .dotted ∧ own = .header then none
      else
        (changeAt origin change path own inner).map fun inner =>
          Fields.put entries key (.table own inner)
    | some (.tables items) =>
      match items.reverse with
      | [] => none
      | last :: others =>
        if origin = .dotted then none
        else
          (changeAt origin change path .header last).map fun inner =>
            Fields.put entries key (.tables (inner :: others).reverse)

/-- Adds a value under a key of a table, reached by the dotted keys before it. -/
def addValue (path : List String) (value : Value) (origin : Origin) (entries : Entries) :
    Option Entries :=
  match path.reverse with
  | [] => none
  | key :: before =>
    changeAt .dotted (fun own entries =>
      if !before.isEmpty && own ≠ .dotted then none
      else if Fields.has entries key then none
      else some (Fields.put entries key (.value value))) before.reverse origin entries

def openTable (path : List String) (entries : Entries) : Option Entries :=
  match path.reverse with
  | [] => none
  | key :: before =>
    changeAt .inner (fun _ entries =>
      match Fields.get? entries key with
      | none => some (Fields.put entries key (.table .header []))
      | some (.table .inner inner) => some (Fields.put entries key (.table .header inner))
      | some _ => none) before.reverse .header entries

def appendTable (path : List String) (entries : Entries) : Option Entries :=
  match path.reverse with
  | [] => none
  | key :: before =>
    changeAt .inner (fun _ entries =>
      match Fields.get? entries key with
      | none => some (Fields.put entries key (.tables [[]]))
      | some (.tables items) => some (Fields.put entries key (.tables (items ++ [[]])))
      | some _ => none) before.reverse .header entries

mutual

def Item.toValue : Item → Value
  | .value found => found
  | .table _ entries => .table (Item.entriesToValues entries)
  | .tables items => .list (Item.listToValues items)

def Item.entriesToValues : List (String × Item) → List (String × Value)
  | [] => []
  | (key, item) :: entries => (key, item.toValue) :: Item.entriesToValues entries

def Item.listToValues : List (List (String × Item)) → List Value
  | [] => []
  | entries :: items => .table (Item.entriesToValues entries) :: Item.listToValues items

end

/-! ## Values -/

def listItems (value : Reader Value) : Nat → Reader (List Value)
  | 0 => failure
  | fuel + 1 => do
    skipLines fuel
    if ← tokenIf "]" then return []
    let item ← value
    skipLines fuel
    if ← tokenIf "," then return item :: (← listItems value fuel)
    token "]"
    return [item]

/-- The entries of a table on one line up to its closing brace. -/
def inlineEntries (value : Reader Value) : Nat → Entries → Reader Entries
  | 0, _ => failure
  | fuel + 1, entries => do
    let path ← dottedKey (fuel + 1)
    token "="
    skipBlanks
    let found ← value
    skipBlanks
    match addValue path found .header entries with
    | none => failure
    | some entries =>
      if ← tokenIf "," then inlineEntries value fuel entries
      else
        token "\x7d"
        return entries

/-- A value with so many lists and tables around one another. -/
def value : Nat → Reader Value
  | 0 => failure
  | depth + 1 => do
    let fuel := (← get).length + 1
    match (← get) with
    | [] => failure
    | c :: _ =>
      if c = '"' || c = '\'' then return .text (← string)
      else if c = '[' then
        token "["
        return .list (← listItems (value depth) fuel)
      else if c = '\x7b' then
        token "\x7b"
        skipBlanks
        if ← tokenIf "\x7d" then return .table []
        return .table (Item.entriesToValues (← inlineEntries (value depth) fuel []))
      else if ← tokenIf "true" then return .boolean true
      else if ← tokenIf "false" then return .boolean false
      else moment <|> based <|> decimal

/-- How many lists and tables may stand around one another in a value. -/
def maxDepth : Nat := 80

/-! ## Files -/

/-- The lines of a file. `path` is the table that keys belong to. -/
def lines : Nat → List String → Entries → Reader Entries
  | 0, _, _ => failure
  | fuel + 1, path, entries => do
    skipLines (fuel + 1)
    match ← get with
    | [] => return entries
    | '[' :: '[' :: _ =>
      token "[["
      let header ← dottedKey (fuel + 1)
      token "]]"
      lineEnd
      match appendTable header entries with
      | some entries => lines fuel header entries
      | none => failure
    | '[' :: _ =>
      token "["
      let header ← dottedKey (fuel + 1)
      token "]"
      lineEnd
      match openTable header entries with
      | some entries => lines fuel header entries
      | none => failure
    | _ =>
      let key ← dottedKey (fuel + 1)
      token "="
      skipBlanks
      let found ← value maxDepth
      lineEnd
      match changeAt .inner (addValue key found) path .header entries with
      | some entries => lines fuel path entries
      | none => failure

/-- The settings in the text of a file, if it is well formed. -/
def parse? (source : String) : Option (Fields Value) :=
  let text :=
    match source.toList with
    | c :: rest => if c.toNat = 0xFEFF then rest else c :: rest
    | [] => []
  ((lines (text.length + 1) [] []).run text).map fun read => Item.entriesToValues read.1

end BlockLoom.Settings.Toml
