/-!
White space in text, by the Unicode property of that name. The white space
around names, expressions and whole scripts carries no meaning and is cut off.
-/

namespace BlockLoom.Text

/-- The characters with the Unicode property White_Space. -/
def isWhiteSpace (c : Char) : Bool :=
  let code := c.toNat
  (9 ≤ code && code ≤ 13) || code == 0x20 || code == 0x85 || code == 0xA0 || code == 0x1680 ||
    (0x2000 ≤ code && code ≤ 0x200A) || code == 0x2028 || code == 0x2029 || code == 0x202F ||
    code == 0x205F || code == 0x3000

/-- A list of characters without the white space at its ends. -/
def trimList (text : List Char) : List Char :=
  ((text.dropWhile isWhiteSpace).reverse.dropWhile isWhiteSpace).reverse

/-- A text without the white space at its ends. -/
def trim (text : String) : String :=
  String.ofList (trimList text.toList)

/-- Whether a text holds nothing but white space. -/
def isBlankText (text : String) : Bool :=
  text.toList.all isWhiteSpace

/-- A text without the white space at its ends, or nothing if nothing else is in it. -/
def trimmed? (text : String) : Option String :=
  let inner := trim text
  if inner.isEmpty then none else some inner

end BlockLoom.Text
