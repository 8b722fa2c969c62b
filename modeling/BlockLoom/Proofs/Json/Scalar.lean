import BlockLoom.Json.Reader
import Mathlib.Data.Nat.Digits.Defs

/-!
Scalars of JSON text. The digits of an admitted integer and the characters of a
string between quotes read back as what was written, whatever text follows them.
-/

namespace BlockLoom.Json

/-! ## Digits -/

/-- Decimal notation starts with zero only for zero itself. -/
theorem toDigits_head {n : Nat} (h : 0 < n) :
    ∃ c rest, Nat.toDigits 10 n = c :: rest ∧ c ≠ '0' := by
  induction n using Nat.strongRecOn with
  | _ n ih =>
    rw [Nat.toDigits_eq_if (by decide)]
    split
    · exact ⟨_, [], rfl, by simp; omega⟩
    · obtain ⟨c, rest, heq, hc⟩ := ih (n / 10) (by omega) (by omega)
      exact ⟨c, rest ++ [Nat.digitChar (n % 10)], by rw [heq]; rfl, hc⟩

theorem isDigit_toDigits {n : Nat} {c : Char} (h : c ∈ Nat.toDigits 10 n) : c.isDigit = true :=
  Nat.isDigit_of_mem_toDigits (by decide) (by decide) h

theorem le_ofDigitChars (digits : List Char) (value : Nat) :
    value ≤ Nat.ofDigitChars 10 digits value := by
  induction digits generalizing value with
  | nil => simp
  | cons c rest ih =>
    rw [Nat.ofDigitChars_cons]
    exact Nat.le_trans (by omega) (ih _)

/-- The text that may follow a number: nothing in it goes on with the number. -/
def EndsNumber (rest : List Char) : Prop :=
  ∀ c tail, rest = c :: tail → c.isDigit = false ∧ c ≠ '.' ∧ c ≠ 'e' ∧ c ≠ 'E'

theorem endsNumber_nil : EndsNumber [] := by
  intro c tail h
  cases h

theorem endsNumber_cons {c : Char} (rest : List Char)
    (h : c.isDigit = false ∧ c ≠ '.' ∧ c ≠ 'e' ∧ c ≠ 'E') : EndsNumber (c :: rest) := by
  intro d tail heq
  cases heq
  exact h

theorem startsWithDigit_of_ends {rest : List Char} (h : EndsNumber rest) :
    startsWithDigit rest = false := by
  cases rest with
  | nil => rfl
  | cons c tail => exact (h c tail rfl).1

theorem gather_of_ends {rest : List Char} (h : EndsNumber rest) (value count : Nat) :
    gather value count rest = (value, count, rest) := by
  cases rest with
  | nil => rfl
  | cons c tail =>
    rw [gather]
    simp [(h c tail rfl).1]

/-- Digits are gathered up to their end as long as their value is admitted. -/
theorem gather_digits (digits : List Char) {rest : List Char} (value count : Nat)
    (hd : ∀ c ∈ digits, c.isDigit = true)
    (hv : (Nat.ofDigitChars 10 digits value : Int) ≤ Number.greatestInteger)
    (hr : EndsNumber rest) :
    gather value count (digits ++ rest) =
      (Nat.ofDigitChars 10 digits value, count + digits.length, rest) := by
  induction digits generalizing value count with
  | nil => simpa using gather_of_ends hr value count
  | cons c tail ih =>
    rw [Nat.ofDigitChars_cons] at hv ⊢
    have next : value * 10 + (c.toNat - '0'.toNat) = 10 * value + (c.toNat - '0'.toNat) := by omega
    have small : ((10 * value + (c.toNat - '0'.toNat) : Nat) : Int) ≤ Number.greatestInteger :=
      Int.le_trans (Int.ofNat_le.mpr (le_ofDigitChars tail _)) hv
    have digit : c.isDigit = true := hd c List.mem_cons_self
    rw [List.cons_append, gather]
    simp only [next, digit, small, and_self, if_true]
    rw [ih _ _ (fun d hm => hd d (List.mem_cons_of_mem _ hm)) hv]
    simp only [List.length_cons, Nat.add_assoc, Nat.add_comm 1]

private theorem takeWhile_of_ends {rest : List Char} (h : EndsNumber rest) :
    rest.takeWhile Char.isDigit = [] ∧ rest.dropWhile Char.isDigit = rest := by
  cases rest with
  | nil => exact ⟨rfl, rfl⟩
  | cons c tail => simp [(h c tail rfl).1]

/-- What stands after the digits of an integer is neither a fraction nor an exponent. -/
private theorem afterDigits {α : Type} (rest : List Char)
    (fraction lower upper : List Char → α) (whole : α) :
    EndsNumber rest →
      (match rest with
        | '.' :: tail => fraction tail
        | 'e' :: tail => lower tail
        | 'E' :: tail => upper tail
        | _ => whole) = whole := by
  intro h
  split
  · next tail => exact absurd rfl (h _ tail rfl).2.1
  · next tail => exact absurd rfl (h _ tail rfl).2.2.1
  · next tail => exact absurd rfl (h _ tail rfl).2.2.2
  · rfl

theorem readNumber_toDigits (positive : Bool) (n : Nat) {rest : List Char}
    (hn : (n : Int) ≤ Number.greatestInteger) (hr : EndsNumber rest) :
    readNumber positive (Nat.toDigits 10 n ++ rest) = .ok (wholeNumber positive n, rest) := by
  obtain ⟨noDigits, stays⟩ := takeWhile_of_ends hr
  rcases Nat.eq_zero_or_pos n with rfl | pos
  · simp only [Nat.toDigits_zero, List.cons_append, List.nil_append, readNumber,
      startsWithDigit_of_ends hr, noDigits, stays, Char.reduceIsDigit, List.isEmpty_nil,
      if_true, and_false, Bool.false_eq_true, if_false]
    exact afterDigits rest _ _ _ _ hr
  · obtain ⟨c, digits, heq, nonzero⟩ := toDigits_head pos
    have digit : ∀ d ∈ c :: digits, d.isDigit = true := fun d hm => isDigit_toDigits (heq ▸ hm)
    have value : Nat.ofDigitChars 10 digits (c.toNat - '0'.toNat) = n := by
      have all := Nat.ofDigitChars_ten_toDigits (n := n)
      rw [heq, Nat.ofDigitChars_cons] at all
      simpa using all
    have gathered := gather_digits digits (c.toNat - '0'.toNat) 0
      (fun d hm => digit d (List.mem_cons_of_mem _ hm)) (by rw [value]; exact hn) hr
    rw [value] at gathered
    simp only [heq, List.cons_append, readNumber, nonzero, digit c List.mem_cons_self, gathered,
      noDigits, stays, false_and, if_false, if_true, List.isEmpty_nil]
    exact afterDigits rest _ _ _ _ hr

theorem wholeNumber_neg {n : Nat} (hn : 0 < n) (least : Number.leastInteger ≤ -(n : Int)) :
    wholeNumber false n = .integer (-n) := by
  simp [wholeNumber, hn, least]

/-! ## Strings -/

private theorem hexQuad_digits : ∀ code < 32,
    (hexQuad code).length = 4 ∧ hexNumber? (hexQuad code) = some code := by
  decide

theorem hexNumber?_hexQuad {code : Nat} (h : code < 32) :
    ∃ a b c d, hexQuad code = [a, b, c, d] ∧ hexNumber? [a, b, c, d] = some code := by
  obtain ⟨four, number⟩ := hexQuad_digits code h
  match hquad : hexQuad code with
  | [a, b, c, d] => exact ⟨a, b, c, d, rfl, hquad ▸ number⟩
  | [] | [_] | [_, _] | [_, _, _] | _ :: _ :: _ :: _ :: _ :: _ => simp [hquad] at four

/-- A character is read back from its escaped form. -/
theorem readChars_escapeChar (c : Char) (rest : List Char) :
    readChars (escapeChar c ++ rest) = Reading.cons c (readChars rest) := by
  unfold escapeChar
  split
  any_goals rfl
  split
  · next control =>
    obtain ⟨x, y, z, w, quad, number⟩ := hexNumber?_hexQuad control
    have plain : isTrailing c.toNat = false ∧ isLeading c.toNat = false := by
      simp only [isTrailing, isLeading, Bool.and_eq_false_iff, decide_eq_false_iff_not]
      omega
    rw [quad]
    simp only [List.cons_append, List.nil_append, readChars, number, plain, Bool.false_eq_true,
      if_false, Char.ofNat_toNat]
  · next control =>
    rw [List.cons_append, List.nil_append, readChars.eq_def]
    split <;> simp_all

theorem readChars_escaped (chars rest : List Char) :
    readChars (chars.flatMap escapeChar ++ '"' :: rest) = .ok (chars, rest) := by
  induction chars with
  | nil => rw [List.flatMap_nil, List.nil_append, readChars]
  | cons c chars ih =>
    rw [List.flatMap_cons, List.append_assoc, readChars_escapeChar, ih]
    rfl

theorem toList_quote (value : String) :
    (quote value).toList = '"' :: (value.toList.flatMap escapeChar ++ ['"']) := by
  simp [quote]

/-- A string between quotes is read back whatever follows it. -/
theorem readString_quote (value : String) (rest : List Char) :
    readString (value.toList.flatMap escapeChar ++ '"' :: rest) = .ok (value, rest) := by
  rw [readString, readChars_escaped]
  simp

end BlockLoom.Json
