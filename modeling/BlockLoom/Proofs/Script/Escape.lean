import BlockLoom.Proofs.Script.Scan
import BlockLoom.Script.Literal
import Mathlib.Data.List.Induction
import Mathlib.Tactic.IntervalCases

/-!
Strings in scripts and what they stand for. A string is a sequence of characters and
escapes, and its value a sequence of UTF-16 code units. Here escapes are given by their
syntax, each with its units, and compared with what is read of them: one token at a time,
each of them decoded by itself.
-/

namespace BlockLoom.Script

/-! ## Code units -/

def codeUnits (code : Nat) : List Nat :=
  if code < 0x10000 then [code]
  else [0xD800 + (code - 0x10000) / 0x400, 0xDC00 + (code - 0x10000) % 0x400]

/-- The UTF-16 code units of a text. -/
def utf16 (chars : List Char) : List Nat :=
  chars.flatMap fun c => codeUnits c.toNat

/-- The code units that stand for characters in pairs only. -/
def IsSurrogate (unit : Nat) : Prop :=
  0xD800 ≤ unit ∧ unit ≤ 0xDFFF

instance : DecidablePred IsSurrogate := fun unit =>
  inferInstanceAs (Decidable (0xD800 ≤ unit ∧ unit ≤ 0xDFFF))

theorem not_isSurrogate_toNat (c : Char) : ¬IsSurrogate c.toNat ∧ c.toNat < 0x110000 := by
  have valid : c.toNat < 0xD800 ∨ 0xDFFF < c.toNat ∧ c.toNat < 0x110000 := c.valid
  unfold IsSurrogate
  omega

theorem length_codeUnits_pos (code : Nat) : 0 < (codeUnits code).length := by
  unfold codeUnits
  split <;> simp

/-- The first character of a text can be told from its code units. -/
theorem codeUnits_append_inj {c d : Char} {units others : List Nat}
    (h : codeUnits c.toNat ++ units = codeUnits d.toNat ++ others) : c = d ∧ units = others := by
  have ⟨plain, _⟩ := not_isSurrogate_toNat c
  have ⟨others, _⟩ := not_isSurrogate_toNat d
  unfold IsSurrogate at plain others
  rw [← Char.toNat_inj]
  unfold codeUnits at h
  split at h <;> split at h <;>
    simp only [List.cons_append, List.nil_append, List.cons.injEq] at h
  · exact h
  · omega
  · omega
  · exact ⟨by omega, h.2.2⟩

theorem utf16_injective {chars others : List Char} (h : utf16 chars = utf16 others) :
    chars = others := by
  induction chars generalizing others with
  | nil =>
    cases others with
    | nil => rfl
    | cons d others =>
      have length := congrArg List.length h
      have positive := length_codeUnits_pos d.toNat
      simp only [utf16, List.flatMap_nil, List.flatMap_cons, List.length_nil,
        List.length_append] at length
      omega
  | cons c chars ih =>
    cases others with
    | nil =>
      have length := congrArg List.length h
      have positive := length_codeUnits_pos c.toNat
      simp only [utf16, List.flatMap_nil, List.flatMap_cons, List.length_nil,
        List.length_append] at length
      omega
    | cons d others =>
      obtain ⟨rfl, same⟩ := codeUnits_append_inj h
      rw [ih same]

/-! ## Escapes -/

def baseValue (base : Nat) (digits : List Char) : Nat :=
  digits.foldl (fun value c => base * value + hexValue c) 0

def isOctalDigit (c : Char) : Bool :=
  '0' ≤ c && c ≤ '7'

/-- The letters that stand for control characters. -/
def controls : List (Char × Char) :=
  [('b', '\x08'), ('t', '\t'), ('n', '\n'), ('v', '\x0b'), ('f', '\x0c'), ('r', '\r')]

def lineEnds : List (List Char) :=
  [['\n'], ['\r'], ['\r', '\n'], [Char.ofNat 0x2028], [Char.ofNat 0x2029]]

inductive Escape where
  /-- A character that stands for itself. -/
  | self (c : Char)
  /-- A letter for a control character. -/
  | control (letter value : Char)
  /-- An end of a line that is no part of the value. -/
  | continuation (ends : List Char)
  /-- Two hexadecimal digits. -/
  | hex (a b : Char)
  /-- Four hexadecimal digits. -/
  | quad (a b c d : Char)
  /-- Hexadecimal digits between braces. -/
  | codePoint (digits : List Char)
  /-- Up to three octal digits. -/
  | octal (digits : List Char)

namespace Escape

def text : Escape → List Char
  | self c => ['\\', c]
  | control letter _ => ['\\', letter]
  | continuation ends => '\\' :: ends
  | hex a b => ['\\', 'x', a, b]
  | quad a b c d => ['\\', 'u', a, b, c, d]
  | codePoint digits => '\\' :: 'u' :: '\x7b' :: (digits ++ ['\x7d'])
  | octal digits => '\\' :: digits

def units : Escape → List Nat
  | self c => codeUnits c.toNat
  | control _ value => codeUnits value.toNat
  | continuation _ => []
  | hex a b => [baseValue 16 [a, b]]
  | quad a b c d => [baseValue 16 [a, b, c, d]]
  | codePoint digits => codeUnits (baseValue 16 digits)
  | octal digits => [baseValue 8 digits]

/-- Whether octal digits leave room for another one. An octal escape is at most 377. -/
def hasRoom : List Char → Bool
  | [_] => true
  | [a, _] => a ≤ '3'
  | _ => false

def IsOctal : List Char → Prop
  | [a] => isOctalDigit a = true
  | [a, b] => isOctalDigit a = true ∧ isOctalDigit b = true
  | [a, b, c] => isOctalDigit a = true ∧ isOctalDigit b = true ∧ isOctalDigit c = true ∧ a ≤ '3'
  | _ => False

instance : DecidablePred IsOctal
  | [] => inferInstanceAs (Decidable False)
  | [a] => inferInstanceAs (Decidable (isOctalDigit a = true))
  | [a, b] => inferInstanceAs (Decidable (isOctalDigit a = true ∧ isOctalDigit b = true))
  | [a, b, c] =>
    inferInstanceAs (Decidable (isOctalDigit a = true ∧ isOctalDigit b = true ∧
      isOctalDigit c = true ∧ a ≤ '3'))
  | _ :: _ :: _ :: _ :: _ => inferInstanceAs (Decidable False)

/-- The escapes of the language. -/
def Formed : Escape → Prop
  | self c => c ∉ "bfnrtvxu".toList ∧ isOctalDigit c = false ∧ isLineEnd c = false
  | control letter value => (letter, value) ∈ controls
  | continuation ends => ends ∈ lineEnds
  | hex a b => ∀ digit ∈ [a, b], isHexDigit digit = true
  | quad a b c d => ∀ digit ∈ [a, b, c, d], isHexDigit digit = true
  | codePoint digits =>
    digits ≠ [] ∧ (∀ digit ∈ digits, isHexDigit digit = true) ∧ baseValue 16 digits ≤ 0x10FFFF
  | octal digits => IsOctal digits

instance : DecidablePred Formed
  | self c => inferInstanceAs (Decidable (c ∉ _ ∧ isOctalDigit c = false ∧ isLineEnd c = false))
  | control letter value => inferInstanceAs (Decidable ((letter, value) ∈ controls))
  | continuation ends => inferInstanceAs (Decidable (ends ∈ lineEnds))
  | hex a b => List.decidableBAll _ [a, b]
  | quad a b c d => List.decidableBAll _ [a, b, c, d]
  | codePoint digits =>
    have : Decidable (∀ digit ∈ digits, isHexDigit digit = true) := List.decidableBAll _ digits
    inferInstanceAs (Decidable (digits ≠ [] ∧ (∀ digit ∈ digits, isHexDigit digit = true) ∧
      baseValue 16 digits ≤ 0x10FFFF))
  | octal digits => inferInstanceAs (Decidable (IsOctal digits))

/-- An escape ends before a character: the character is no further digit of it. -/
def EndsBefore : Escape → Char → Prop
  | octal digits, c => hasRoom digits = true → isOctalDigit c = false
  | _, _ => True

instance : DecidableRel EndsBefore
  | octal digits, c => inferInstanceAs (Decidable (hasRoom digits = true → isOctalDigit c = false))
  | self _, _ | control _ _, _ | continuation _, _ | hex _ _, _ | quad _ _ _ _, _
  | codePoint _, _ => isTrue trivial

/-! ### What is read -/

/-- Ends of lines that the tokens of some escapes take with them. -/
def isTrailing (c : Char) : Bool :=
  c == '\n' || c.toNat == 0x2028 || c.toNat == 0x2029

/-- Whether the token of an escape takes the character behind it as well. -/
def takes : Escape → Char → Bool
  | self c, d => c == '?' && isTrailing d
  | continuation ends, d => ends == ['\r'] && isTrailing d
  | octal digits, d => digits.length < 3 && isOctalDigit d
  | _, _ => false

def octalChar (first : Char) : Char :=
  if first = '0' then '\x00' else first

/-- The characters that are read of an escape. -/
def read : Escape → Option (List Char)
  | self c => some [c]
  | control _ value => some [value]
  | continuation _ => some []
  | hex a b => (hexChar? [a, b]).map fun c => [c]
  | quad a b c d => (hexChar? [a, b, c, d]).map fun c => [c]
  | codePoint digits => (hexChar? digits).map fun c => [c]
  | octal digits => digits.head?.map fun first => [octalChar first]

/-- The octal escapes of the null character, and the one escape of a digit that starts with
the digit it stands for. -/
def directOctals : List (List Char) :=
  [['0'], ['0', '0'], ['0', '0', '0'], ['6', '6']]

/-- An escape that is read as what it stands for: no half of a surrogate pair, and no
octal escape except for the null character and the digit six. -/
def IsDirect : Escape → Prop
  | quad a b c d => ¬IsSurrogate (baseValue 16 [a, b, c, d])
  | codePoint digits => ¬IsSurrogate (baseValue 16 digits)
  | octal digits => digits ∈ directOctals
  | _ => True

instance : DecidablePred IsDirect
  | quad a b c d => inferInstanceAs (Decidable ¬IsSurrogate (baseValue 16 [a, b, c, d]))
  | codePoint digits => inferInstanceAs (Decidable ¬IsSurrogate (baseValue 16 digits))
  | octal digits => inferInstanceAs (Decidable (digits ∈ directOctals))
  | self _ | control _ _ | continuation _ | hex _ _ => isTrue trivial

variable {escape : Escape} {rest : List Char} {c : Char}

/-- The token of a backslash and a character that starts no hexadecimal escape. -/
theorem escapeLength?_other (x : c ≠ 'x') (u : c ≠ 'u') (rest : List Char) :
    escapeLength? ('\\' :: c :: rest) =
      if isOctalDigit c = true then
        some (((c :: rest).take 3).takeWhile isOctalDigit).length.succ
      else if (c = '\r' ∨ c = '?') ∧ rest.head?.any isTrailing = true then some 3
      else some 2 := by
  rw [escapeLength?.eq_def]
  split
  · next same => exact absurd (List.cons.inj (List.cons.inj same).2).1 x
  · next same => exact absurd (List.cons.inj (List.cons.inj same).2).1 u
  · next same => exact absurd (List.cons.inj (List.cons.inj same).2).1 x
  · next same =>
    obtain ⟨rfl, rfl⟩ := List.cons.inj (List.cons.inj same).2
    have octal : ('0' ≤ c ∧ c ≤ '7') = (isOctalDigit c = true) := by simp [isOctalDigit]
    simp only [octal]
    congr 1
    cases rest <;> simp [isTrailing, ite_and]
  · next other => exact absurd rfl (other _ _)

theorem isOctalDigit_ne {c d : Char} (h : isOctalDigit c = true) (other : isOctalDigit d = false) :
    c ≠ d := by
  rintro rfl
  exact Bool.false_ne_true (other.symm.trans h)

theorem IsOctal.cons {digits : List Char} (h : IsOctal digits) :
    ∃ a tail, digits = a :: tail ∧ isOctalDigit a = true := by
  match digits, h with
  | [a], h => exact ⟨a, [], rfl, h⟩
  | [a, _], ⟨h, _⟩ => exact ⟨a, _, rfl, h⟩
  | [a, _, _], ⟨h, _⟩ => exact ⟨a, _, rfl, h⟩

/-- The token of an octal escape: its digits, and one more if there is room. -/
theorem escapeLength?_octal {digits : List Char} (h : IsOctal digits) (rest : List Char) :
    escapeLength? ('\\' :: (digits ++ rest)) =
      some (((digits ++ rest).take 3).takeWhile isOctalDigit).length.succ := by
  obtain ⟨a, tail, rfl, first⟩ := h.cons
  rw [List.cons_append, escapeLength?_other (isOctalDigit_ne first (by decide))
    (isOctalDigit_ne first (by decide)), if_pos first]

/-- Four hexadecimal digits are a token. -/
theorem wordEscape?_quad {a b c d : Char} (h : ∀ digit ∈ [a, b, c, d], isHexDigit digit = true)
    (rest : List Char) : wordEscape? ('\\' :: 'u' :: a :: b :: c :: d :: rest) = some 6 := by
  have brace : a ≠ '\x7b' := by
    rintro rfl
    exact absurd (h _ List.mem_cons_self) (by decide)
  rw [wordEscape?.eq_def]
  split
  · next same => exact absurd (List.cons.inj (List.cons.inj (List.cons.inj same).2).2).1 brace
  · next same =>
    cases same
    rw [if_pos (List.all_eq_true.mpr h)]
  · next other => exact absurd rfl (other _ _ _ _ _)

/-- Hexadecimal digits between braces are a token. -/
theorem wordEscape?_codePoint {digits : List Char} (filled : digits ≠ [])
    (h : ∀ digit ∈ digits, isHexDigit digit = true) (rest : List Char) :
    wordEscape? ('\\' :: 'u' :: '\x7b' :: (digits ++ '\x7d' :: rest)) =
      some (digits.length + 4) := by
  have taken : (digits ++ '\x7d' :: rest).takeWhile isHexDigit = digits := by
    rw [List.takeWhile_append_of_pos h, List.takeWhile_cons_of_neg (by decide), List.append_nil]
  have some : digits.isEmpty = false := by simpa using filled
  rw [wordEscape?]
  simp only [taken, List.drop_left, some]

/-- The digits of an octal escape are a token, unless there is room for the next one. -/
theorem takeWhile_octal {digits : List Char} (h : IsOctal digits)
    (free : rest.head?.any (octal digits).takes = false) :
    ((digits ++ rest).take 3).takeWhile isOctalDigit = digits := by
  match digits, h, rest with
  | [a], h, [] => simp_all [IsOctal]
  | [a], h, c :: rest => simp_all [IsOctal, takes]
  | [a, b], h, [] => simp_all [IsOctal]
  | [a, b], h, c :: rest => simp_all [IsOctal, takes]
  | [a, b, c], h, _ => simp_all [IsOctal]

/-- The token of an escape is the escape, unless the character behind it is taken. -/
theorem escapeLength?_text (formed : escape.Formed)
    (free : rest.head?.any escape.takes = false) :
    escapeLength? (escape.text ++ rest) = some escape.text.length := by
  cases escape with
  | self c =>
    obtain ⟨letter, digit, line⟩ := formed
    have ne {d : Char} (mem : d ∈ "bfnrtvxu".toList) : c ≠ d := fun same => letter (same ▸ mem)
    have alone : ¬((c = '\r' ∨ c = '?') ∧ rest.head?.any isTrailing = true) := by
      rintro ⟨rfl | rfl, trailing⟩
      · exact absurd line (by decide)
      · exact Bool.false_ne_true (free.symm.trans trailing)
    rw [text, List.cons_append, List.cons_append, List.nil_append,
      escapeLength?_other (ne (by decide)) (ne (by decide)), if_neg (by simp [digit]),
      if_neg alone]
    rfl
  | control letter value =>
    simp only [Formed, controls, List.mem_cons, Prod.mk.injEq, List.not_mem_nil, or_false] at formed
    rcases formed with ⟨rfl, -⟩ | ⟨rfl, -⟩ | ⟨rfl, -⟩ | ⟨rfl, -⟩ | ⟨rfl, -⟩ | ⟨rfl, -⟩ <;>
      exact escapeLength?_other (by decide) (by decide) rest
  | continuation ends =>
    simp only [Formed, lineEnds, List.mem_cons, List.not_mem_nil, or_false] at formed
    rcases formed with rfl | rfl | rfl | rfl | rfl
    · exact escapeLength?_other (by decide) (by decide) rest
    · rw [text, List.cons_append, List.cons_append, List.nil_append,
        escapeLength?_other (by decide) (by decide), if_neg (by decide)]
      refine if_neg ?_
      rintro ⟨-, trailing⟩
      exact Bool.false_ne_true (free.symm.trans trailing)
    · exact escapeLength?_other (by decide) (by decide) ('\n' :: rest)
    · exact escapeLength?_other (by decide) (by decide) rest
    · exact escapeLength?_other (by decide) (by decide) rest
  | hex a b =>
    have digits : isHexDigit a = true ∧ isHexDigit b = true := by simpa [Formed] using formed
    simp [text, escapeLength?, digits]
  | quad a b c d => exact wordEscape?_quad formed rest
  | codePoint digits =>
    obtain ⟨filled, digits, _⟩ := formed
    have length := wordEscape?_codePoint filled digits rest
    rw [text, List.cons_append, List.cons_append, List.cons_append, List.append_assoc,
      escapeLength?, List.singleton_append, length]
    simp
  | octal digits =>
    rw [text, List.cons_append, escapeLength?_octal formed, takeWhile_octal formed free]
    rfl

/-- The token of an escape that takes the character behind it. -/
theorem escapeLength?_taken (formed : escape.Formed) (ends : escape.EndsBefore c)
    (taken : escape.takes c = true) :
    escapeLength? (escape.text ++ c :: rest) = some (escape.text.length + 1) := by
  cases escape with
  | self d =>
    obtain ⟨rfl, trailing⟩ : d = '?' ∧ isTrailing c = true := by simpa [takes] using taken
    rw [text, List.cons_append, List.cons_append, List.nil_append,
      escapeLength?_other (by decide) (by decide), if_neg (by decide)]
    exact if_pos ⟨.inr rfl, trailing⟩
  | continuation lineEnd =>
    obtain ⟨rfl, trailing⟩ : lineEnd = ['\r'] ∧ isTrailing c = true := by simpa [takes] using taken
    rw [text, List.cons_append, List.cons_append, List.nil_append,
      escapeLength?_other (by decide) (by decide), if_neg (by decide)]
    exact if_pos ⟨.inl rfl, trailing⟩
  | octal digits =>
    obtain ⟨short, digit⟩ : digits.length < 3 ∧ isOctalDigit c = true := by simpa [takes] using taken
    have full : hasRoom digits = false := by
      by_contra room
      exact Bool.false_ne_true ((ends (eq_true_of_ne_false room)).symm.trans digit)
    obtain ⟨a, b, rfl⟩ : ∃ a b, digits = [a, b] := by
      match digits, full, formed, short with
      | [a, b], _, _, _ => exact ⟨a, b, rfl⟩
    have ⟨first, second⟩ : isOctalDigit a = true ∧ isOctalDigit b = true := formed
    have octal : IsOctal [a, b] := formed
    rw [text, List.cons_append, escapeLength?_octal octal]
    simp [first, second, digit]
  | _ => cases taken

/-- A character without a meaning of its own behind a backslash stands for itself. -/
theorem unescape?_other (letter : c ∉ "bfnrtvxu".toList) (zero : c ≠ '0')
    (line : isLineEnd c = false) (rest : List Char) :
    unescape? ('\\' :: c :: rest) = some [c] := by
  have letters : "bfnrtvxu".toList = ['b', 'f', 'n', 'r', 't', 'v', 'x', 'u'] := rfl
  simp only [letters, List.mem_cons, List.not_mem_nil, or_false, not_or] at letter
  simp [unescape?, line, zero, letter]

theorem mem_octalDigits (h : isOctalDigit c = true) : c ∈ "01234567".toList := by
  have bounds : 48 ≤ c.toNat ∧ c.toNat ≤ 55 := by
    simpa [isOctalDigit, Char.le_def, UInt32.le_iff_toNat_le] using h
  rw [← Char.ofNat_toNat c]
  generalize c.toNat = code at bounds
  obtain ⟨least, most⟩ := bounds
  interval_cases code <;> decide

/-- An escape is decoded as it is read, also where its token takes more. -/
theorem unescape?_text (formed : escape.Formed) {behind : List Char}
    (taken : ∀ c ∈ behind, escape.takes c = true) :
    unescape? (escape.text ++ behind) = escape.read := by
  have alone (free : ∀ c, escape.takes c = false) : behind = [] :=
    List.eq_nil_iff_forall_not_mem.mpr fun c mem =>
      Bool.false_ne_true ((free c).symm.trans (taken c mem))
  cases escape with
  | self c =>
    obtain ⟨letter, digit, line⟩ := formed
    exact unescape?_other letter (fun zero => absurd digit (zero ▸ by decide)) line behind
  | control letter value =>
    simp only [Formed, controls, List.mem_cons, Prod.mk.injEq, List.not_mem_nil, or_false] at formed
    rcases formed with ⟨rfl, rfl⟩ | ⟨rfl, rfl⟩ | ⟨rfl, rfl⟩ | ⟨rfl, rfl⟩ | ⟨rfl, rfl⟩ | ⟨rfl, rfl⟩ <;>
      rfl
  | continuation ends =>
    simp only [Formed, lineEnds, List.mem_cons, List.not_mem_nil, or_false] at formed
    rcases formed with rfl | rfl | rfl | rfl | rfl <;> rfl
  | hex a b =>
    have digits : isHexDigit a = true ∧ isHexDigit b = true := by simpa [Formed] using formed
    rw [alone fun _ => rfl]
    simp [text, read, unescape?, digits]
  | quad a b c d =>
    rw [alone fun _ => rfl]
    have digits : [a, b, c, d].filter isHexDigit = [a, b, c, d] := List.filter_eq_self.mpr formed
    simp [text, read, unescape?, digits]
  | codePoint digits =>
    obtain ⟨_, digits, _⟩ := formed
    have digits := List.filter_eq_self.mpr digits
    have braces : isHexDigit '\x7b' = false ∧ isHexDigit '\x7d' = false := by decide
    rw [alone fun _ => rfl]
    simp [text, read, unescape?, digits, braces]
  | octal digits =>
    obtain ⟨a, tail, rfl, digit⟩ := formed.cons
    rw [text, read, List.head?_cons, Option.map_some, octalChar, List.cons_append,
      List.cons_append]
    split
    · next zero =>
      subst zero
      rfl
    · next zero =>
      have other : ∀ c ∈ "01234567".toList, c ∉ "bfnrtvxu".toList ∧ isLineEnd c = false :=
        Scan.forall_mem_of_all (by decide)
      have ⟨letter, line⟩ := other a (mem_octalDigits digit)
      exact unescape?_other letter zero line _

/-! ### What is read and what is meant -/

theorem hexValue_le {c : Char} (h : isHexDigit c = true) : hexValue c ≤ 15 := by
  simp only [isHexDigit, Char.isDigit, Bool.or_eq_true, Bool.and_eq_true, decide_eq_true_eq,
    ge_iff_le, Char.le_def, UInt32.le_iff_toNat_le] at h
  simp only [hexValue, Char.isDigit, Bool.and_eq_true, decide_eq_true_eq, ge_iff_le, Char.le_def,
    UInt32.le_iff_toNat_le, Char.toNat]
  have bounds : '0'.val.toNat = 48 ∧ '9'.val.toNat = 57 ∧ 'a'.val.toNat = 97 ∧
      'f'.val.toNat = 102 ∧ 'A'.val.toNat = 65 ∧ 'F'.val.toNat = 70 := by decide
  have zero : (48 : UInt32).toNat = 48 ∧ (57 : UInt32).toNat = 57 := by decide
  split
  · omega
  · split <;> omega

/-- Hexadecimal digits name a character, unless they name a surrogate. -/
theorem hexChar?_spec {digits : List Char} (filled : digits ≠ [])
    (most : baseValue 16 digits ≤ 0x10FFFF) :
    (hexChar? digits = none → IsSurrogate (baseValue 16 digits)) ∧
      ∀ c, hexChar? digits = some c →
        ¬IsSurrogate (baseValue 16 digits) ∧ c.toNat = baseValue 16 digits := by
  have unfolded : hexChar? digits =
      if h : (baseValue 16 digits).isValidChar then some (Char.ofNatAux (baseValue 16 digits) h)
      else none := by
    rw [hexChar?, if_neg (by simpa using filled)]
    rfl
  rw [unfolded]
  by_cases valid : (baseValue 16 digits).isValidChar
  · have same : (Char.ofNatAux (baseValue 16 digits) valid).toNat = baseValue 16 digits := rfl
    rw [dif_pos valid]
    refine ⟨fun missing => absurd missing (Option.some_ne_none _), fun c found => ?_⟩
    rw [← Option.some.inj found]
    exact ⟨same ▸ (not_isSurrogate_toNat _).1, same⟩
  · rw [dif_neg valid]
    refine ⟨fun _ => ?_, fun c found => absurd found.symm (Option.some_ne_none _)⟩
    unfold Nat.isValidChar at valid
    unfold IsSurrogate
    omega

/-- Whether octal digits stand for the character their first digit is read as exactly when they
are listed. -/
def octalCheck (first : Char) (tail : List Char) : Bool :=
  decide (utf16 [octalChar first] = [baseValue 8 (first :: tail)]) ==
    decide (first :: tail ∈ directOctals)

/-- Only few octal escapes stand for the character that their first digit is read as. -/
theorem octalChar_units {digits : List Char} (formed : IsOctal digits) :
    ∃ first tail, digits = first :: tail ∧ (utf16 [octalChar first]).length = 1 ∧
      (utf16 [octalChar first] = [baseValue 8 digits] ↔ digits ∈ directOctals) := by
  have lone : ∀ a ∈ "01234567".toList, (utf16 [octalChar a]).length = 1 :=
    Scan.forall_mem_of_all (by decide)
  have single : ("01234567".toList.all fun a => octalCheck a []) = true := by decide
  have double : ("01234567".toList.all fun a => "01234567".toList.all fun b =>
      octalCheck a [b]) = true := by decide +kernel
  have triple : ("01234567".toList.all fun a => "01234567".toList.all fun b =>
      "01234567".toList.all fun c => octalCheck a [b, c]) = true := by decide +kernel
  simp only [List.all_eq_true, octalCheck, beq_iff_eq, decide_eq_decide] at single double triple
  match digits, formed with
  | [a], first =>
    have first := mem_octalDigits first
    exact ⟨a, [], rfl, lone a first, single a first⟩
  | [a, b], ⟨first, second⟩ =>
    have first := mem_octalDigits first
    exact ⟨a, [b], rfl, lone a first, double a first b (mem_octalDigits second)⟩
  | [a, b, c], ⟨first, second, third, _⟩ =>
    have first := mem_octalDigits first
    exact ⟨a, [b, c], rfl, lone a first,
      triple a first b (mem_octalDigits second) c (mem_octalDigits third)⟩

theorem baseValue_hex_le {digits : List Char}
    (h : ∀ digit ∈ digits, isHexDigit digit = true) :
    baseValue 16 digits < 16 ^ digits.length := by
  induction digits using List.reverseRecOn with
  | nil => simp [baseValue]
  | append_singleton digits digit ih =>
    have last := hexValue_le (h digit (by simp))
    have before := ih fun other mem => h other (by simp [mem])
    rw [baseValue, List.foldl_append] 
    simp only [List.foldl_cons, List.foldl_nil, List.length_append, List.length_singleton, pow_succ]
    change 16 * baseValue 16 digits + _ < _
    omega

theorem utf16_singleton (c : Char) : utf16 [c] = codeUnits c.toNat :=
  List.append_nil _

theorem codeUnits_small {code : Nat} (h : code < 0x10000) : codeUnits code = [code] :=
  if_pos h

/-- What is read of hexadecimal digits has the length of what is meant, and is the same if
it is no surrogate. -/
theorem hexChar?_units {digits : List Char} (filled : digits ≠ [])
    (most : baseValue 16 digits ≤ 0x10FFFF) :
    (((hexChar? digits).map fun c => [c]) = none → IsSurrogate (baseValue 16 digits)) ∧
      ∀ chars, ((hexChar? digits).map fun c => [c]) = some chars →
        utf16 chars = codeUnits (baseValue 16 digits) ∧ ¬IsSurrogate (baseValue 16 digits) := by
  obtain ⟨missing, found⟩ := hexChar?_spec filled most
  refine ⟨fun none => missing (Option.map_eq_none_iff.mp none), fun chars some => ?_⟩
  obtain ⟨c, read, rfl⟩ := Option.map_eq_some_iff.mp some
  obtain ⟨plain, code⟩ := found c read
  exact ⟨by rw [utf16_singleton, code], plain⟩

/-- What is read of an escape has the length of what is meant, and is the same just if the
escape is direct. -/
theorem read_spec (formed : escape.Formed) :
    (escape.read = none → ¬escape.IsDirect) ∧
      ∀ chars, escape.read = some chars → (utf16 chars).length = escape.units.length ∧
        (utf16 chars = escape.units ↔ escape.IsDirect) := by
  cases escape with
  | self c =>
    refine ⟨nofun, ?_⟩
    rintro _ ⟨⟩
    simp [utf16_singleton, units, IsDirect]
  | control letter value =>
    refine ⟨nofun, ?_⟩
    rintro _ ⟨⟩
    simp [utf16_singleton, units, IsDirect]
  | continuation ends =>
    refine ⟨nofun, ?_⟩
    rintro _ ⟨⟩
    simp [utf16, units, IsDirect]
  | hex a b =>
    have small : baseValue 16 [a, b] < 16 ^ 2 := baseValue_hex_le formed
    have plain : ¬IsSurrogate (baseValue 16 [a, b]) := by unfold IsSurrogate; omega
    obtain ⟨missing, found⟩ := hexChar?_units (List.cons_ne_nil a [b]) (by omega)
    refine ⟨fun none => absurd (missing none) plain, fun chars some => ?_⟩
    rw [(found chars some).1, codeUnits_small (by omega)]
    simp [units, IsDirect]
  | quad a b c d =>
    have small : baseValue 16 [a, b, c, d] < 16 ^ 4 := baseValue_hex_le formed
    obtain ⟨missing, found⟩ := hexChar?_units (List.cons_ne_nil a [b, c, d]) (by omega)
    refine ⟨fun none => not_not.mpr (missing none), fun chars some => ?_⟩
    rw [(found chars some).1, codeUnits_small (by omega)]
    simp [units, IsDirect, (found chars some).2]
  | codePoint digits =>
    obtain ⟨filled, -, most⟩ := formed
    obtain ⟨missing, found⟩ := hexChar?_units filled most
    refine ⟨fun none => not_not.mpr (missing none), fun chars some => ?_⟩
    rw [(found chars some).1]
    simp [units, IsDirect, (found chars some).2]
  | octal digits =>
    obtain ⟨first, tail, rfl, length, same⟩ := octalChar_units formed
    refine ⟨nofun, ?_⟩
    rintro _ ⟨⟩
    exact ⟨length, same⟩

end Escape

end BlockLoom.Script
