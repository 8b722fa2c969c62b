import BlockLoom.Proofs.Script.Escape
import Mathlib.Data.List.Chain

/-!
Strings between quotes. A string is read as the text that its parts are decoded to one by
one, which is the text it stands for just if all its escapes are direct and none of their
tokens takes a character that belongs to the value.
-/

namespace BlockLoom.Script

open Scan

/-! ## Parts of strings -/

inductive StringPart where
  | char (c : Char)
  | escape (sequence : Escape)

namespace StringPart

def text : StringPart → List Char
  | char c => [c]
  | escape sequence => sequence.text

def units : StringPart → List Nat
  | char c => codeUnits c.toNat
  | escape sequence => sequence.units

/-- The parts that a string in the given quotes may have. -/
def Formed (quote : Char) : StringPart → Prop
  | char c => c ∉ [quote, '\\', '\n', '\r']
  | escape sequence => sequence.Formed

instance (quote : Char) : DecidablePred (Formed quote)
  | char c => inferInstanceAs (Decidable (c ∉ [quote, '\\', '\n', '\r']))
  | escape sequence => inferInstanceAs (Decidable sequence.Formed)

/-- The part behind an escape does not continue it. -/
def EndsBefore : StringPart → StringPart → Prop
  | escape sequence, char c => sequence.EndsBefore c
  | _, _ => True

instance : DecidableRel EndsBefore
  | escape sequence, char c => inferInstanceAs (Decidable (sequence.EndsBefore c))
  | escape _, escape _ | char _, _ => isTrue trivial

/-- Whether the token of a part takes the part behind it as well. -/
def takes : StringPart → StringPart → Bool
  | escape sequence, char c => sequence.takes c
  | _, _ => false

/-- The characters that are read of a part. -/
def read : StringPart → Option (List Char)
  | char c => some [c]
  | escape sequence => sequence.read

/-- A part that is read as what it stands for. -/
def IsDirect : StringPart → Prop
  | char _ => True
  | escape sequence => sequence.IsDirect

instance : DecidablePred IsDirect
  | char _ => isTrue trivial
  | escape sequence => inferInstanceAs (Decidable sequence.IsDirect)

end StringPart

open StringPart

structure IsBody (quote : Char) (parts : List StringPart) : Prop where
  formed : ∀ part ∈ parts, part.Formed quote
  ends : parts.IsChain EndsBefore

instance (quote : Char) : DecidablePred (IsBody quote) := fun parts =>
  decidable_of_iff ((∀ part ∈ parts, part.Formed quote) ∧ parts.IsChain EndsBefore)
    ⟨fun h => ⟨h.1, h.2⟩, fun h => ⟨h.formed, h.ends⟩⟩

def bodyText (parts : List StringPart) : List Char :=
  parts.flatMap text

def bodyUnits (parts : List StringPart) : List Nat :=
  parts.flatMap units

def joined : Option (List Char) → Option (List Char) → Option (List Char)
  | some chars, some others => some (chars ++ others)
  | _, _ => none

/-- What the parts of a string are decoded to, token by token. -/
def decoded : List StringPart → Option (List Char)
  | [] => some []
  | [part] => joined part.read (some [])
  | part :: next :: parts =>
    if part.takes next then joined part.read (decoded parts)
    else joined part.read (decoded (next :: parts))

/-- Parts that are read as what they stand for, with no token that takes the next part. -/
def AreDirect : List StringPart → Prop
  | [] => True
  | [part] => part.IsDirect
  | part :: next :: parts =>
    part.IsDirect ∧ part.takes next = false ∧ AreDirect (next :: parts)

instance : DecidablePred AreDirect := decideDirect
where
  decideDirect : (parts : List StringPart) → Decidable (AreDirect parts)
    | [] => isTrue trivial
    | [part] => inferInstanceAs (Decidable part.IsDirect)
    | part :: next :: parts =>
      have := decideDirect (next :: parts)
      inferInstanceAs (Decidable (part.IsDirect ∧ part.takes next = false ∧ AreDirect (next :: parts)))

variable {quote : Char} {part next : StringPart} {parts : List StringPart} {rest : List Char}

theorem IsBody.tail (h : IsBody quote (part :: parts)) : IsBody quote parts :=
  ⟨fun other mem => h.formed other (List.mem_cons_of_mem _ mem), h.ends.tail⟩

theorem IsBody.endsBefore (h : IsBody quote (part :: next :: parts)) : part.EndsBefore next :=
  (List.isChain_cons_cons.mp h.ends).1

/-! ## What is decoded -/

theorem joined_eq_some {first second : Option (List Char)} {chars : List Char} :
    joined first second = some chars ↔
      ∃ front back, first = some front ∧ second = some back ∧ front ++ back = chars := by
  cases first <;> cases second <;> simp [joined]

theorem joined_eq_none {first second : Option (List Char)} :
    joined first second = none ↔ first = none ∨ second = none := by
  cases first <;> cases second <;> simp [joined]

/-- A part whose token never takes the next part is decoded by itself. -/
theorem decoded_cons (free : ∀ next, part.takes next = false) (parts : List StringPart) :
    decoded (part :: parts) = joined part.read (decoded parts) := by
  cases parts with
  | nil => rfl
  | cons next parts => rw [decoded, free next, if_neg Bool.false_ne_true]

theorem utf16_append (chars others : List Char) :
    utf16 (chars ++ others) = utf16 chars ++ utf16 others :=
  List.flatMap_append

/-- What is read of a part has the length of what is meant, and is the same just if the part
is direct. -/
theorem StringPart.read_spec (formed : part.Formed quote) :
    (part.read = none → ¬part.IsDirect) ∧
      ∀ chars, part.read = some chars → (utf16 chars).length = part.units.length ∧
        (utf16 chars = part.units ↔ part.IsDirect) := by
  cases part with
  | char c =>
    refine ⟨nofun, ?_⟩
    rintro _ ⟨⟩
    simp [utf16, units, IsDirect]
  | escape sequence => exact Escape.read_spec formed

/-- A part whose token takes the next part stands before a character. -/
theorem StringPart.exists_of_takes (h : part.takes next = true) :
    ∃ sequence c, part = escape sequence ∧ next = char c ∧ sequence.takes c = true := by
  match part, next, h with
  | escape sequence, char c, h => exact ⟨sequence, c, rfl, rfl, h⟩

/-- What is decoded is no longer than what is meant, and is the same just if all parts are
direct. -/
theorem decoded_spec (body : IsBody quote parts) :
    (decoded parts = none → ¬AreDirect parts) ∧
      ∀ chars, decoded parts = some chars → (utf16 chars).length ≤ (bodyUnits parts).length ∧
        (utf16 chars = bodyUnits parts ↔ AreDirect parts) := by
  induction parts using decoded.induct with
  | case1 => simp [decoded, utf16, bodyUnits, AreDirect]
  | case2 part =>
    obtain ⟨missing, found⟩ := read_spec (body.formed part List.mem_cons_self)
    refine ⟨fun none => ?_, fun chars some => ?_⟩
    · rw [decoded, joined_eq_none] at none
      exact missing (none.resolve_right (Option.some_ne_none _))
    · rw [decoded, joined_eq_some] at some
      obtain ⟨front, back, read, nothing, rfl⟩ := some
      obtain rfl := Option.some.inj nothing
      obtain ⟨length, same⟩ := found front read
      simpa [bodyUnits, AreDirect, length] using same
  | case3 part next parts taken ih =>
    obtain ⟨_, found⟩ := read_spec (body.formed part List.mem_cons_self)
    obtain ⟨_, rest⟩ := ih body.tail.tail
    have direct : ¬AreDirect (part :: next :: parts) := fun h =>
      Bool.false_ne_true (h.2.1.symm.trans taken)
    refine ⟨fun _ => direct, fun chars some => ?_⟩
    rw [decoded, if_pos taken, joined_eq_some] at some
    obtain ⟨front, back, read, others, rfl⟩ := some
    obtain ⟨_, c, _, rfl, _⟩ := exists_of_takes taken
    -- The units of the character that is taken are missing.
    have shorter : (utf16 (front ++ back)).length < (bodyUnits (part :: char c :: parts)).length := by
      have positive : 0 < (char c).units.length := length_codeUnits_pos c.toNat
      have length := (found front read).1
      have least := (rest back others).1
      rw [bodyUnits] at least
      simp only [utf16_append, bodyUnits, List.flatMap_cons, List.length_append]
      omega
    exact ⟨shorter.le, iff_of_false (fun same => absurd (congrArg List.length same) shorter.ne) direct⟩
  | case4 part next parts free ih =>
    obtain ⟨missing, found⟩ := read_spec (body.formed part List.mem_cons_self)
    obtain ⟨gone, rest⟩ := ih body.tail
    have free : part.takes next = false := eq_false_of_ne_true free
    refine ⟨fun none => ?_, fun chars some => ?_⟩
    · rw [decoded, free, if_neg Bool.false_ne_true, joined_eq_none] at none
      rintro ⟨direct, _, others⟩
      exact none.elim (fun none => missing none direct) (fun none => gone none others)
    · rw [decoded, free, if_neg Bool.false_ne_true, joined_eq_some] at some
      obtain ⟨front, back, read, others, rfl⟩ := some
      obtain ⟨length, same⟩ := found front read
      obtain ⟨least, agrees⟩ := rest back others
      have split : bodyUnits (part :: next :: parts) = part.units ++ bodyUnits (next :: parts) :=
        List.flatMap_cons
      rw [utf16_append, split, List.length_append, List.length_append, AreDirect, ← same, ← agrees]
      refine ⟨by omega, ?_, ?_⟩
      · intro whole
        obtain ⟨first, others⟩ := List.append_inj whole length
        exact ⟨first, free, others⟩
      · rintro ⟨first, _, others⟩
        rw [first, others]

/-! ## Reading -/

def quotes : List Char := ['"', '\'']

theorem forall_quotes {p : Char → Prop} (double : p '"') (single : p '\'') :
    ∀ quote ∈ quotes, p quote := by
  simpa [quotes] using ⟨double, single⟩

variable {fuel : Nat}

theorem stringBody_char {c : Char} (formed : (char c).Formed quote) (rest : List Char) :
    stringBody quote (fuel + 1) (c :: rest) = (stringBody quote fuel rest).map fun found =>
      (found.1 + 1, joined (some [c]) found.2) := by
  simp only [Formed, List.mem_cons, List.not_mem_nil, or_false, not_or] at formed
  rw [stringBody, if_neg (by simp [formed]), if_neg (by simp [formed]), if_neg (by simp [formed])]
  rcases stringBody quote fuel rest with _ | ⟨count, _ | chars⟩ <;> rfl

theorem Escape.text_opens (escape : Escape) : ∃ sequence, escape.text = '\\' :: sequence := by
  cases escape <;> exact ⟨_, rfl⟩

/-- Characters that no escape takes with it. -/
theorem Escape.takes_mark {c : Char} (h : c ∈ '\\' :: quotes) (escape : Escape) :
    escape.takes c = false := by
  have marks : ∀ c ∈ '\\' :: quotes, isTrailing c = false ∧ isOctalDigit c = false :=
    forall_mem_of_all (by decide)
  obtain ⟨trailing, digit⟩ := marks c h
  cases escape <;> simp [takes, trailing, digit]

theorem stringBody_quote (rest : List Char) :
    stringBody quote (fuel + 1) (quote :: rest) = some (1, some []) := by
  rw [stringBody, if_pos (beq_self_eq_true quote)]

section reading

variable (quoted : quote ∈ quotes)

include quoted

/-- A token that starts with a backslash is read and decoded by itself. -/
theorem stringBody_token {token : List Char} (opens : ∃ sequence, token = '\\' :: sequence)
    (length : escapeLength? (token ++ rest) = some token.length) :
    stringBody quote (fuel + 1) (token ++ rest) = (stringBody quote fuel rest).map fun found =>
      (found.1 + token.length, joined (unescape? token) found.2) := by
  obtain ⟨sequence, rfl⟩ := opens
  have other : ('\\' == quote) = false := by
    have backslash : ∀ quote ∈ quotes, ('\\' == quote) = false :=
      forall_quotes (by decide) (by decide)
    exact backslash quote quoted
  have dropped : ('\\' :: (sequence ++ rest)).drop ('\\' :: sequence).length = rest :=
    @List.drop_left _ ('\\' :: sequence) rest
  have taken : ('\\' :: (sequence ++ rest)).take ('\\' :: sequence).length = '\\' :: sequence :=
    @List.take_left _ ('\\' :: sequence) rest
  rw [List.cons_append] at length ⊢
  rw [stringBody, if_neg (by simp [other]), if_pos (beq_self_eq_true '\\')]
  simp only [length, dropped, taken]
  rcases stringBody quote fuel rest with _ | ⟨count, _ | chars⟩
  · rfl
  · cases unescape? ('\\' :: sequence) <;> rfl
  · cases unescape? ('\\' :: sequence) <;> rfl

/-- A part is read by itself, if its token does not take what is behind it. -/
theorem stringBody_part (formed : part.Formed quote)
    (free : ∀ c tail, rest = c :: tail → part.takes (char c) = false) :
    stringBody quote (fuel + 1) (part.text ++ rest) = (stringBody quote fuel rest).map fun found =>
      (found.1 + part.text.length, joined part.read found.2) := by
  cases part with
  | char c => exact stringBody_char formed rest
  | escape sequence =>
    have untaken : rest.head?.any sequence.takes = false := by
      cases rest with
      | nil => rfl
      | cons c tail => exact free c tail rfl
    have length := Escape.escapeLength?_text formed untaken
    rw [text, stringBody_token quoted sequence.text_opens length, StringPart.read,
      ← Escape.unescape?_text formed (List.forall_mem_nil _), List.append_nil]

/-- A part is read together with the character that its token takes. -/
theorem stringBody_taken {c : Char} (formed : part.Formed quote)
    (ends : part.EndsBefore (char c)) (taken : part.takes (char c) = true) (rest : List Char) :
    stringBody quote (fuel + 1) (part.text ++ c :: rest) =
      (stringBody quote fuel rest).map fun found =>
        (found.1 + (part.text.length + 1), joined part.read found.2) := by
  cases part with
  | char d => cases taken
  | escape sequence =>
    have length := @Escape.escapeLength?_taken _ rest _ formed ends taken
    have token : sequence.text ++ c :: rest = (sequence.text ++ [c]) ++ rest := by simp
    have opens : ∃ tail, sequence.text ++ [c] = '\\' :: tail := by
      obtain ⟨tail, opened⟩ := sequence.text_opens
      exact ⟨tail ++ [c], by rw [opened]; rfl⟩
    rw [token] at length
    rw [text, token, stringBody_token quoted opens (by simpa using length), StringPart.read,
      ← Escape.unescape?_text formed (List.forall_mem_singleton.mpr taken)]
    simp

/-- The parts of a string are read up to its closing quote, and decoded token by token. The
induction is on the parts; a part that its predecessor's token takes has been read with it. -/
theorem stringBody_decoded (body : IsBody quote parts) (enough : parts.length < fuel)
    (rest : List Char) :
    stringBody quote fuel (bodyText parts ++ quote :: rest) =
      some ((bodyText parts).length + 1, decoded parts) := by
  have mark (part : StringPart) {c : Char} (h : c ∈ '\\' :: quotes) :
      part.takes (char c) = false := by
    cases part with
    | char d => rfl
    | escape sequence => exact sequence.takes_mark h
  induction parts using decoded.induct generalizing fuel with
  | case1 =>
    obtain ⟨fuel, rfl⟩ : ∃ less, fuel = less + 1 := ⟨fuel - 1, by omega⟩
    exact stringBody_quote rest
  | case2 part =>
    obtain ⟨fuel, rfl⟩ : ∃ less, fuel = less + 1 + 1 := ⟨fuel - 2, by simp at enough; omega⟩
    have free : ∀ c tail, quote :: rest = c :: tail → part.takes (char c) = false := by
      rintro _ _ ⟨⟩
      exact mark part (List.mem_cons_of_mem _ quoted)
    have formed := body.formed part List.mem_cons_self
    have alone : bodyText [part] = part.text := List.flatMap_singleton ..
    rw [alone, stringBody_part quoted formed free, stringBody_quote, decoded, Option.map_some,
      Nat.add_comm 1]
  | case3 part next parts taken ih =>
    obtain ⟨fuel, rfl⟩ : ∃ less, fuel = less + 1 := ⟨fuel - 1, by simp at enough; omega⟩
    obtain ⟨_, c, _, rfl, _⟩ := exists_of_takes taken
    have formed := body.formed part List.mem_cons_self
    have enough : parts.length < fuel := by simp only [List.length_cons] at enough; omega
    have read := ih body.tail.tail enough
    have split : bodyText (part :: char c :: parts) = part.text ++ c :: bodyText parts := rfl
    rw [split, List.append_assoc, List.cons_append,
      stringBody_taken quoted formed body.endsBefore taken, read, decoded, if_pos taken]
    simp only [Option.map_some, List.length_append, List.length_cons]
    congr 2
    omega
  | case4 part next parts free ih =>
    obtain ⟨fuel, rfl⟩ : ∃ less, fuel = less + 1 := ⟨fuel - 1, by simp at enough; omega⟩
    have formed := body.formed part List.mem_cons_self
    have enough : (next :: parts).length < fuel := by
      simp only [List.length_cons] at enough ⊢
      omega
    have read := ih body.tail enough
    have split : bodyText (part :: next :: parts) = part.text ++ bodyText (next :: parts) :=
      List.flatMap_cons
    have behind : ∀ c tail, bodyText (next :: parts) ++ quote :: rest = c :: tail →
        part.takes (char c) = false := by
      intro c tail opened
      cases next with
      | char d =>
        obtain ⟨rfl, -⟩ := List.cons.inj opened
        exact eq_false_of_ne_true free
      | escape sequence =>
        obtain ⟨inside, text⟩ := sequence.text_opens
        have opens : bodyText (escape sequence :: parts) = '\\' :: (inside ++ bodyText parts) := by
          rw [bodyText, List.flatMap_cons, StringPart.text, text]
          rfl
        rw [opens] at opened
        obtain ⟨rfl, -⟩ := List.cons.inj opened
        exact mark part List.mem_cons_self
    rw [split, List.append_assoc, stringBody_part quoted formed behind, read, decoded,
      if_neg free]
    simp only [Option.map_some, List.length_append]
    congr 2
    omega

end reading

/-! ## Literals -/

structure StringLiteral where
  quote : Char
  parts : List StringPart
  quoted : quote ∈ quotes
  body : IsBody quote parts

namespace StringLiteral

def text (literal : StringLiteral) : List Char :=
  literal.quote :: (bodyText literal.parts ++ [literal.quote])

def source (literal : StringLiteral) : String :=
  String.ofList literal.text

def units (literal : StringLiteral) : List Nat :=
  bodyUnits literal.parts

/-- The text that a literal is read as, if it is decoded. -/
def read (literal : StringLiteral) : Option String :=
  (decoded literal.parts).map String.ofList

variable (literal : StringLiteral)

/-- A literal is read as its value just if its parts are direct. -/
theorem read_eq_some_iff {value : String} (meant : utf16 value.toList = literal.units) :
    literal.read = some value ↔ AreDirect literal.parts := by
  obtain ⟨missing, found⟩ := decoded_spec literal.body
  unfold read
  cases chars : decoded literal.parts with
  | none => simpa using missing chars
  | some chars =>
    rw [← (found _ chars).2, Option.map_some, Option.some.injEq, ← units, ← meant]
    constructor
    · rintro rfl
      rw [String.toList_ofList]
    · intro same
      rw [utf16_injective same, String.ofList_toList]

theorem length_parts_le (parts : List StringPart) : parts.length ≤ (bodyText parts).length := by
  induction parts with
  | nil => exact Nat.le_refl _
  | cons part parts ih =>
    have filled : 0 < part.text.length := by
      cases part with
      | char c => exact Nat.one_pos
      | escape sequence =>
        obtain ⟨tail, opened⟩ := sequence.text_opens
        rw [StringPart.text, opened]
        exact Nat.succ_pos _
    rw [bodyText, List.flatMap_cons, List.length_append, List.length_cons]
    rw [bodyText] at ih
    omega

theorem text_append (rest : List Char) : literal.text ++ rest =
    literal.quote :: (bodyText literal.parts ++ literal.quote :: rest) := by
  simp [text]

theorem token (rest : List Char) : StartsToken (literal.text ++ rest) := by
  have solid : ∀ quote ∈ quotes, isBlank quote = false ∧ quote ≠ '/' :=
    forall_quotes (by decide) (by decide)
  exact ⟨literal.quote, _, literal.text_append rest, solid _ literal.quoted⟩

theorem isQuote : (literal.quote == '"' || literal.quote == '\'') = true := by
  have quote : ∀ quote ∈ quotes, (quote == '"' || quote == '\'') = true := forall_quotes rfl rfl
  exact quote _ literal.quoted

/-- A literal is read up to its closing quote, whatever follows. -/
theorem scanned (offset : Nat) (rest : List Char) :
    string.run ⟨offset, literal.text ++ rest⟩ =
      some (⟨.string literal.read, offset, literal.text, []⟩,
        ⟨offset + literal.text.length, rest⟩) := by
  have enough : literal.parts.length <
      (bodyText literal.parts ++ literal.quote :: rest).length + 1 := by
    have least := length_parts_le literal.parts
    rw [List.length_append]
    omega
  have body := stringBody_decoded literal.quoted literal.body enough rest
  have passed : (pass literal.text.length).run ⟨offset, literal.text ++ rest⟩ =
      some ((), ⟨offset + literal.text.length, rest⟩) := by
    rw [run_pass]
    simp [Cursor.advance]
  have leaf : (leaf (.string literal.read) _).run _ = _ :=
    leaf_reads offset (literal.token rest) passed
  have length : literal.text.length = (bodyText literal.parts).length + 1 + 1 := by simp [text]
  unfold string
  rw [run_then (run_look _), skip_token offset (literal.token rest)]
  rw [text_append, length] at leaf
  rw [text_append]
  simp only [literal.isQuote, if_true, body]
  rw [length]
  exact leaf

end StringLiteral

end BlockLoom.Script
