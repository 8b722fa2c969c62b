import BlockLoom.Script.Member
import BlockLoom.Script.Object
import BlockLoom.Proofs.Json.Scalar
import BlockLoom.Proofs.Script.StringBody

/-!
Tokens that are read as they were written: words, numbers in decimal notation, and
strings with the escapes of JSON.
-/

namespace BlockLoom.Script

open Scan

/-! ## Names -/

/-- The code points of characters that are never part of a word. -/
private def wordlessRanges : List (Nat × Nat) :=
  [(0, 0x23), (0x25, 0x2F), (0x3A, 0x40), (0x5B, 0x5E), (0x60, 0x60), (0x7B, 0x7E),
    (0xA0, 0xA0), (0x1680, 0x1680), (0x2000, 0x200B), (0x2028, 0x2029), (0x202F, 0x202F),
    (0x205F, 0x2060), (0x3000, 0x3000), (0xFEFF, 0xFEFF)]

private theorem inRanges_iff {ranges : List (Nat × Nat)} {code : Nat} :
    Text.inRanges ranges code = true ↔ ∃ range ∈ ranges, range.1 ≤ code ∧ code ≤ range.2 := by
  simp [Text.inRanges]

private theorem inRanges_wordless {c : Char} (h : isWordPart c = false) :
    Text.inRanges wordlessRanges c.toNat = true := by
  have marks : punctuation.all fun mark => Text.inRanges wordlessRanges mark.toNat := by
    decide
  simp only [isWordPart, Bool.and_eq_false_iff, Bool.not_eq_false', decide_eq_false_iff_not] at h
  rcases h with (low | blank) | mark
  · exact inRanges_iff.mpr ⟨(0, 0x23), List.mem_cons_self, by omega, by omega⟩
  · simp only [isBlank, Bool.or_eq_true, Bool.and_eq_true, decide_eq_true_eq, beq_iff_eq] at blank
    simp only [Text.inRanges, wordlessRanges, List.any_cons, List.any_nil, Bool.or_eq_true,
      Bool.and_eq_true, decide_eq_true_eq]
    omega
  · exact List.all_eq_true.mp marks c (by simpa using mark)

private def areApart (ranges others : List (Nat × Nat)) : Bool :=
  ranges.all fun range => others.all fun other =>
    Nat.blt range.2 other.1 || Nat.blt other.2 range.1

/-- Ranges of which none meets one of others hold none of their code points. -/
private theorem inRanges_apart {ranges others : List (Nat × Nat)}
    (apart : areApart ranges others = true)
    {code : Nat} (h : Text.inRanges others code = true) : Text.inRanges ranges code = false := by
  obtain ⟨other, member, least, most⟩ := inRanges_iff.mp h
  rw [Bool.eq_false_iff]
  intro inside
  obtain ⟨range, listed, low, high⟩ := inRanges_iff.mp inside
  have between := List.all_eq_true.mp (List.all_eq_true.mp apart range listed) other member
  simp only [Bool.or_eq_true, Nat.blt_eq] at between
  omega

private theorem letters_apart :
    areApart Text.alphabeticRanges ((0x30, 0x39) :: wordlessRanges) = true := by
  decide +kernel

private theorem numbers_apart : areApart Text.numericRanges wordlessRanges = true := by
  decide +kernel

/-- Every character of a bare name is part of a word. -/
theorem isWordPart_of_isNamePart {c : Char} (h : isNamePart c = true) : isWordPart c = true := by
  by_contra part
  have wordless := inRanges_wordless (Bool.eq_false_iff.mpr part)
  have outside : Text.inRanges ((0x30, 0x39) :: wordlessRanges) c.toNat = true := by
    rw [Text.inRanges, List.any_cons, Bool.or_eq_true]
    exact .inr wordless
  have letter := inRanges_apart letters_apart outside
  have number := inRanges_apart numbers_apart wordless
  simp only [isNamePart, Text.isAlphanumeric, Text.isAlphabetic, letter, number, Bool.or_self,
    Bool.false_or, Bool.or_eq_true, beq_iff_eq] at h
  rcases h with rfl | rfl <;> exact part (by decide)

theorem isWordStart_of_isNameStart {c : Char} (h : isNameStart c = true) :
    isWordStart c = true := by
  have part : isNamePart c = true := by
    simp only [isNameStart, isNamePart, Text.isAlphanumeric, Bool.or_eq_true] at h ⊢
    rcases h with (letter | mark) | mark
    · exact .inl (.inl (.inl letter))
    · exact .inl (.inr mark)
    · exact .inr mark
  have digit : c.isDigit = false := by
    by_contra digit
    rw [Bool.not_eq_false, Char.isDigit_iff_toNat] at digit
    obtain ⟨least, most⟩ : 48 ≤ c.toNat ∧ c.toNat ≤ 57 := digit
    have letter := inRanges_apart letters_apart
      (inRanges_iff.mpr ⟨(0x30, 0x39), List.mem_cons_self, least, most⟩)
    simp only [isNameStart, Text.isAlphabetic, letter, Bool.false_or, Bool.or_eq_true,
      beq_iff_eq] at h
    rcases h with rfl | rfl
    · exact absurd most (by decide)
    · exact absurd least (by decide)
  simp [isWordStart, isWordPart_of_isNamePart part, digit]

theorem isWord_of_isName {name : String} (h : isName name = true) : IsWord name.toList := by
  unfold isName at h
  match hname : name.toList with
  | [] => simp [hname] at h
  | c :: rest =>
    rw [hname] at h
    simp only [Bool.and_eq_true, List.all_eq_true] at h
    exact ⟨c, rest, rfl, isWordStart_of_isNameStart h.1, fun d mem =>
      isWordPart_of_isNamePart (h.2 d mem)⟩

theorem isWordPart_of_isDigit {c : Char} (h : c.isDigit = true) : isWordPart c = true := by
  rw [Char.isDigit_iff_toNat] at h
  obtain ⟨least, most⟩ : 48 ≤ c.toNat ∧ c.toNat ≤ 57 := h
  by_contra part
  obtain ⟨range, member, low, high⟩ :=
    inRanges_iff.mp (inRanges_wordless (Bool.eq_false_iff.mpr part))
  have apart : ∀ range ∈ wordlessRanges, range.2 < 48 ∨ 57 < range.1 := by decide
  rcases apart range member with before | behind <;> omega

/-! ## Strings -/

private theorem control_escape : ∀ code < 32,
    (Json.hexQuad code).all isHexDigit = true ∧
      hexChar? (Json.hexQuad code) = some (Char.ofNat code) := by
  decide

/-- A character in the notation of JSON is a part of a string that is read as it. -/
private theorem exists_part (c : Char) : ∃ part : StringPart, part.text = Json.escapeChar c ∧
    part.Formed '"' ∧ part.read = some [c] ∧
    ∀ next, part.EndsBefore next ∧ part.takes next = false := by
  have alone (part : StringPart) (h : ∀ d, part.EndsBefore (.char d) ∧ part.takes (.char d) = false)
      (next : StringPart) : part.EndsBefore next ∧ part.takes next = false := by
    cases next with
    | char d => exact h d
    | escape sequence => cases part <;> exact ⟨trivial, rfl⟩
  unfold Json.escapeChar
  split
  · exact ⟨.escape (.self '"'), rfl, by decide, rfl, alone _ fun _ => ⟨trivial, rfl⟩⟩
  · exact ⟨.escape (.self '\\'), rfl, by decide, rfl, alone _ fun _ => ⟨trivial, rfl⟩⟩
  · exact ⟨.escape (.control 'b' '\x08'), rfl, by decide, rfl, alone _ fun _ => ⟨trivial, rfl⟩⟩
  · exact ⟨.escape (.control 'f' '\x0c'), rfl, by decide, rfl, alone _ fun _ => ⟨trivial, rfl⟩⟩
  · exact ⟨.escape (.control 'n' '\n'), rfl, by decide, rfl, alone _ fun _ => ⟨trivial, rfl⟩⟩
  · exact ⟨.escape (.control 'r' '\r'), rfl, by decide, rfl, alone _ fun _ => ⟨trivial, rfl⟩⟩
  · exact ⟨.escape (.control 't' '\t'), rfl, by decide, rfl, alone _ fun _ => ⟨trivial, rfl⟩⟩
  split
  · next control =>
    obtain ⟨x, y, z, w, quad, -⟩ := Json.hexNumber?_hexQuad control
    obtain ⟨digits, value⟩ := control_escape c.toNat control
    rw [Char.ofNat_toNat] at value
    rw [quad] at digits value ⊢
    refine ⟨.escape (.quad x y z w), rfl, List.all_eq_true.mp digits, ?_,
      alone _ fun _ => ⟨trivial, rfl⟩⟩
    rw [StringPart.read, Escape.read, value]
    rfl
  · next quotes backslash _ _ line feed _ _ =>
    refine ⟨.char c, rfl, ?_, rfl, alone _ fun _ => ⟨trivial, rfl⟩⟩
    simp only [StringPart.Formed, List.mem_cons, List.not_mem_nil, or_false, not_or]
    exact ⟨quotes, backslash, line, feed⟩

private theorem exists_body (chars : List Char) : ∃ parts,
    bodyText parts = chars.flatMap Json.escapeChar ∧ IsBody '"' parts ∧
      decoded parts = some chars := by
  induction chars with
  | nil => exact ⟨[], rfl, ⟨List.forall_mem_nil _, .nil⟩, rfl⟩
  | cons c chars ih =>
    obtain ⟨part, text, formed, read, alone⟩ := exists_part c
    obtain ⟨parts, texts, body, all⟩ := ih
    refine ⟨part :: parts, ?_, ⟨?_, ?_⟩, ?_⟩
    · rw [bodyText, List.flatMap_cons, text, List.flatMap_cons, ← texts, bodyText]
    · exact List.forall_mem_cons.mpr ⟨formed, body.formed⟩
    · cases parts with
      | nil => exact .singleton part
      | cons next parts => exact .cons_cons (alone next).1 body.ends
    · rw [decoded_cons fun next => (alone next).2, read, all]
      rfl

/-- A text between quotes is a literal that is read as the text. -/
theorem exists_literal (value : String) : ∃ literal : StringLiteral,
    literal.text = (Json.quote value).toList ∧ literal.read = some value := by
  obtain ⟨parts, text, body, read⟩ := exists_body value.toList
  refine ⟨⟨'"', parts, by decide, body⟩, ?_, ?_⟩
  · rw [StringLiteral.text, text, Json.toList_quote]
  · rw [StringLiteral.read, read, Option.map_some, String.ofList_toList]

end BlockLoom.Script
