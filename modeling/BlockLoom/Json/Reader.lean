import BlockLoom.Json.Problem

/-!
Reading the parts of JSON text: white space, strings, numbers, words, and
values that are skipped without being looked at. A reader takes the unread text
and gives back what it read and the text after it.

Strings admit escaped surrogates only in pairs. A number is an integer when it
is written without a fraction and exponent and fits; otherwise its first
nineteen or twenty digits are scaled by a power of ten in floating point.
-/

namespace BlockLoom.Json

abbrev Reading (α : Type) := Except Fault (α × List Char)

def refuse {α : Type} (problem : Problem) (unread : List Char) : Except Fault α :=
  .error ⟨problem, unread, 0⟩

/-- A fault at the next byte, which has been looked at. -/
def refuseNext {α : Type} (problem : Problem) (unread : List Char) : Except Fault α :=
  .error ⟨problem, unread, 1⟩

def isBlank (c : Char) : Bool :=
  c == ' ' || c == '\n' || c == '\t' || c == '\r'

/-- The text after leading white space. -/
def skipBlank : List Char → List Char
  | [] => []
  | c :: rest => if isBlank c then skipBlank rest else c :: rest

def hexDigit? (c : Char) : Option Nat :=
  if '0' ≤ c ∧ c ≤ '9' then some (c.toNat - '0'.toNat)
  else if 'a' ≤ c ∧ c ≤ 'f' then some (c.toNat - 'a'.toNat + 10)
  else if 'A' ≤ c ∧ c ≤ 'F' then some (c.toNat - 'A'.toNat + 10)
  else none

def hexNumber? (digits : List Char) : Option Nat :=
  digits.foldlM (fun value c => (hexDigit? c).map fun digit => 16 * value + digit) 0

/-- The fault for an escape whose four bytes are not all hexadecimal digits. -/
def refuseQuad {α : Type} (unread : List Char) : Except Fault α :=
  if byteCount unread < 4 then refuse .stringUnfinished [] else .error ⟨.badEscape, unread, 4⟩

def shortEscape? : Char → Option Char
  | '"' => some '"'
  | '\\' => some '\\'
  | '/' => some '/'
  | 'b' => some '\x08'
  | 'f' => some '\x0c'
  | 'n' => some '\n'
  | 'r' => some '\r'
  | 't' => some '\t'
  | _ => none

def isLeading (unit : Nat) : Bool :=
  0xD800 ≤ unit && unit ≤ 0xDBFF

def isTrailing (unit : Nat) : Bool :=
  0xDC00 ≤ unit && unit ≤ 0xDFFF

def pairChar (leading trailing : Nat) : Char :=
  Char.ofNat ((leading - 0xD800) * 0x400 + (trailing - 0xDC00) + 0x10000)

/-- Puts a character in front of what the rest of a string reads as. -/
def Reading.cons (c : Char) : Reading (List Char) → Reading (List Char)
  | .ok (chars, rest) => .ok (c :: chars, rest)
  | .error fault => .error fault

/-- The rest of a string after its opening quote. -/
def readChars (text : List Char) : Reading (List Char) :=
  match text with
  | [] => refuse .stringUnfinished []
  | '"' :: rest => .ok ([], rest)
  | '\\' :: [] => refuse .stringUnfinished []
  | '\\' :: 'u' :: rest =>
    match rest with
    | a :: b :: c :: d :: rest' =>
      match hexNumber? [a, b, c, d] with
      | none => refuseQuad rest
      | some unit =>
        if isTrailing unit then refuse .loneSurrogate rest'
        else if isLeading unit then
          match rest' with
          | '\\' :: 'u' :: rest'' =>
            match rest'' with
            | a :: b :: c :: d :: rest''' =>
              match hexNumber? [a, b, c, d] with
              | none => refuseQuad rest''
              | some second =>
                if isTrailing second then
                  Reading.cons (pairChar unit second) (readChars rest''')
                else refuse .loneSurrogate rest'''
            | _ => refuseQuad rest''
          | '\\' :: [] => refuse .stringUnfinished []
          | '\\' :: rest'' => refuseNext .escapeUnfinished rest''
          | [] => refuse .stringUnfinished []
          | rest'' => refuseNext .escapeUnfinished rest''
        else Reading.cons (Char.ofNat unit) (readChars rest')
    | _ => refuseQuad rest
  | '\\' :: c :: rest =>
    match shortEscape? c with
    | some value => Reading.cons value (readChars rest)
    | none => refuseNext .badEscape (c :: rest)
  | c :: rest =>
    if c.toNat < 32 then refuseNext .controlCharacter (c :: rest)
    else Reading.cons c (readChars rest)

/-- A string after its opening quote. -/
def readString (text : List Char) : Reading String :=
  match readChars text with
  | .ok (chars, rest) => .ok (String.ofList chars, rest)
  | .error fault => .error fault

def readWord (letters text : List Char) : Except Fault (List Char) :=
  match letters, text with
  | [], rest => .ok rest
  | _ :: _, [] => refuse .valueUnfinished []
  | letter :: letters, c :: rest =>
    if c = letter then readWord letters rest else refuseNext .wordExpected (c :: rest)

/-- Digits taken into a number as long as it is an admitted integer, with the count of digits taken. -/
def gather (value count : Nat) : List Char → Nat × Nat × List Char
  | [] => (value, count, [])
  | c :: rest =>
    let next := value * 10 + (c.toNat - '0'.toNat)
    if c.isDigit ∧ (next : Int) ≤ Number.greatestInteger then gather next (count + 1) rest
    else (value, count, c :: rest)

def startsWithDigit : List Char → Bool
  | c :: _ => c.isDigit
  | [] => false

def powerOfTen (exponent : Nat) : Float :=
  Float.ofScientific 1 false exponent

/-- Divides by powers of ten until the exponent is used up or the value vanishes. -/
def scaleDown : Nat → Float → Nat → Float
  | 0, value, _ => value
  | steps + 1, value, exponent =>
    if exponent ≤ 308 then value / powerOfTen exponent
    else if value == 0 then value
    else scaleDown steps (value / powerOfTen 308) (exponent - 308)

def scaled? (significand : Nat) (exponent : Int) : Option Float :=
  let value := (UInt64.ofNat significand).toFloat
  if exponent < 0 then some (scaleDown 8 value (-exponent).toNat)
  else if exponent ≤ 308 then
    let product := value * powerOfTen exponent.toNat
    if product.isInf then none else some product
  else if value == 0 then some value else none

/-- A floating-point number from its parts; `unread` follows its text. -/
def finish (positive : Bool) (significand : Nat) (exponent : Int) (unread : List Char) :
    Reading Number :=
  match scaled? significand exponent with
  | some value => .ok (.ofFloat (if positive then value else -value), unread)
  | none => refuse .numberOutOfRange unread

/-- The greatest exponent that is taken digit by digit. -/
def exponentLimit : Nat := 2147483647

/-- The digits of an exponent; nothing if they exceed the limit. -/
def gatherExponent (value : Nat) : List Char → Option Nat × List Char
  | [] => (some value, [])
  | c :: rest =>
    if c.isDigit then
      let next := value * 10 + (c.toNat - '0'.toNat)
      if next > exponentLimit then (none, rest) else gatherExponent next rest
    else (some value, c :: rest)

def readExponent (positive : Bool) (significand : Nat) (start : Int) (text : List Char) :
    Reading Number :=
  let (upward, digits) :=
    match text with
    | '+' :: rest => (true, rest)
    | '-' :: rest => (false, rest)
    | rest => (true, rest)
  match digits with
  | [] => refuse .valueUnfinished []
  | c :: rest =>
    if !c.isDigit then refuseNext .badNumber (c :: rest)
    else
      match gatherExponent (c.toNat - '0'.toNat) rest with
      | (some value, unread) =>
        finish positive significand (if upward then start + value else start - value) unread
      | (none, unread) =>
        if significand ≠ 0 ∧ upward then refuse .numberOutOfRange unread
        else .ok (.ofFloat (if positive then 0 else -0.0), unread.dropWhile Char.isDigit)

/-- A fraction after its point, and the number that it completes. Digits that no
longer fit are skipped. -/
def readFraction (positive : Bool) (significand : Nat) (start : Int) (text : List Char) :
    Reading Number :=
  let (value, count, rest) := gather significand 0 text
  let exponent := start - count
  let (missing, unread) :=
    if startsWithDigit rest then (false, rest.dropWhile Char.isDigit) else (count == 0, rest)
  if missing then
    match unread with
    | [] => refuseNext .valueUnfinished []
    | _ => refuseNext .badNumber unread
  else
    match unread with
    | 'e' :: after => readExponent positive value exponent after
    | 'E' :: after => readExponent positive value exponent after
    | _ => finish positive value exponent unread

/-- An integer that fits stays exact; a negative zero is floating point. -/
def wholeNumber (positive : Bool) (value : Nat) : Number :=
  if positive then .integer value
  else if 0 < value ∧ Number.leastInteger ≤ -value then .integer (-value)
  else .ofFloat (-(UInt64.ofNat value).toFloat)

def readNumber (positive : Bool) (text : List Char) : Reading Number :=
  match text with
  | [] => refuse .valueUnfinished []
  | c :: rest =>
    if c = '0' ∧ startsWithDigit rest then refuseNext .badNumber rest
    else if c.isDigit then
      let (value, _, unread) :=
        if c = '0' then (0, 0, rest) else gather (c.toNat - '0'.toNat) 0 rest
      let long := unread.takeWhile Char.isDigit
      let after := unread.dropWhile Char.isDigit
      match after with
      | '.' :: fraction => readFraction positive value long.length fraction
      | 'e' :: exponent => readExponent positive value long.length exponent
      | 'E' :: exponent => readExponent positive value long.length exponent
      | _ =>
        if long.isEmpty then .ok (wholeNumber positive value, after)
        else finish positive value long.length after
    else refuseNext .badNumber (c :: rest)

/-- The rest of a string that nobody looks at. -/
def skipChars (text : List Char) : Except Fault (List Char) :=
  match text with
  | [] => refuse .stringUnfinished []
  | '"' :: rest => .ok rest
  | '\\' :: [] => refuse .stringUnfinished []
  | '\\' :: 'u' :: rest =>
    match rest with
    | a :: b :: c :: d :: rest' =>
      if (hexNumber? [a, b, c, d]).isSome then skipChars rest' else refuseQuad rest
    | _ => refuseQuad rest
  | '\\' :: c :: rest =>
    if (shortEscape? c).isSome then skipChars rest else refuseNext .badEscape (c :: rest)
  | c :: rest =>
    if c.toNat < 32 then refuseNext .controlCharacter (c :: rest) else skipChars rest

def skipExponent (text : List Char) : Except Fault (List Char) :=
  let digits :=
    match text with
    | '+' :: rest => rest
    | '-' :: rest => rest
    | rest => rest
  if startsWithDigit digits then .ok (digits.dropWhile Char.isDigit)
  else refuseNext .badNumber digits

/-- A number that nobody looks at; its size does not matter. -/
def skipNumber (text : List Char) : Except Fault (List Char) :=
  match text with
  | [] => refuse .badNumber []
  | c :: rest =>
    if c = '0' ∧ startsWithDigit rest then refuseNext .badNumber rest
    else if c.isDigit then
      match (if c = '0' then rest else rest.dropWhile Char.isDigit) with
      | '.' :: fraction =>
        if !startsWithDigit fraction then refuseNext .badNumber fraction
        else
          match fraction.dropWhile Char.isDigit with
          | 'e' :: exponent => skipExponent exponent
          | 'E' :: exponent => skipExponent exponent
          | after => .ok after
      | 'e' :: exponent => skipExponent exponent
      | 'E' :: exponent => skipExponent exponent
      | after => .ok after
    else refuseNext .badNumber (c :: rest)

/-- A key and its colon inside an object that nobody looks at. -/
def skipKey (text : List Char) : Except Fault (List Char) :=
  match skipBlank text with
  | '"' :: rest =>
    match skipChars rest with
    | .error fault => .error fault
    | .ok after =>
      match skipBlank after with
      | ':' :: value => .ok value
      | [] => refuseNext .objectUnfinished []
      | other => refuseNext .colonExpected other
  | [] => refuseNext .objectUnfinished []
  | other => refuseNext .keyNotString other

/-- Skips a value together with the containers that are open around it, given by
their kind (`true` for a list), innermost first. `inside` says that a value of
the innermost container has just ended, so that a comma may follow. -/
def skipWithin : Nat → List Bool → Bool → List Char → Except Fault (List Char)
  | 0, _, _, text => refuse .tooDeep text
  | _ + 1, [], true, text => .ok text
  | fuel + 1, isList :: outer, true, text =>
    match skipBlank text with
    | ',' :: rest =>
      if isList then skipWithin fuel (isList :: outer) false rest
      else
        match skipKey rest with
        | .ok value => skipWithin fuel (isList :: outer) false value
        | .error fault => .error fault
    | ']' :: rest =>
      if isList then skipWithin fuel outer true rest
      else refuseNext .objectSeparatorExpected (']' :: rest)
    | '\x7d' :: rest =>
      if isList then refuseNext .listSeparatorExpected ('\x7d' :: rest)
      else skipWithin fuel outer true rest
    | [] => refuseNext (if isList then .listUnfinished else .objectUnfinished) []
    | other =>
      refuseNext (if isList then .listSeparatorExpected else .objectSeparatorExpected) other
  | fuel + 1, around, false, text =>
    let proceed : Except Fault (List Char) → Except Fault (List Char)
      | .ok rest => skipWithin fuel around true rest
      | .error fault => .error fault
    match skipBlank text with
    | [] => refuseNext .valueUnfinished []
    | 'n' :: rest => proceed (readWord "ull".toList rest)
    | 't' :: rest => proceed (readWord "rue".toList rest)
    | 'f' :: rest => proceed (readWord "alse".toList rest)
    | '-' :: rest => proceed (skipNumber rest)
    | '"' :: rest => proceed (skipChars rest)
    | '[' :: rest =>
      match skipBlank rest with
      | ']' :: after => skipWithin fuel around true after
      | [] => refuseNext .listUnfinished []
      | inner => skipWithin fuel (true :: around) false inner
    | '\x7b' :: rest =>
      match skipBlank rest with
      | '\x7d' :: after => skipWithin fuel around true after
      | inner =>
        match skipKey inner with
        | .ok value => skipWithin fuel (false :: around) false value
        | .error fault => .error fault
    | c :: rest => if c.isDigit then proceed (skipNumber (c :: rest)) else
        refuseNext .valueExpected (c :: rest)

/-- Skips one value of any depth. -/
def skipValue (text : List Char) : Except Fault (List Char) :=
  skipWithin (2 * text.length + 2) [] false text

end BlockLoom.Json
