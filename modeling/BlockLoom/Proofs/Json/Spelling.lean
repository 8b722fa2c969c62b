import BlockLoom.Proofs.Script.Numeral

/-!
The text of a number is read in the same way wherever it stands. Floating-point arithmetic
is not reasoned about: what matters is that a number is read up to its end, and that what
is read depends on its digits alone.
-/

namespace BlockLoom.Json

open Script (Digits Fraction Exponent Numeral isScalable)

/-- A text is read up to its end or not at all, and what is read does not depend on what
follows. -/
def Settles {α : Type} (reader : List Char → Reading α) (text : List Char) : Prop :=
  ∃ found : Option α, ∀ rest, EndsNumber rest →
    (reader (text ++ rest)).toOption = found.map fun value => (value, rest)

theorem Settles.of_error {α : Type} {reader : List Char → Reading α} {text : List Char}
    (h : ∀ rest, EndsNumber rest → (reader (text ++ rest)).toOption = none) :
    Settles reader text :=
  ⟨none, h⟩

/-! ## Digits -/

theorem digits_tail {c : Char} {text : List Char} (h : Digits (c :: text)) :
    c.isDigit = true ∧ Digits text :=
  List.forall_mem_cons.mp h

theorem dropWhile_digits {text after : List Char} (h : Digits text)
    (stop : startsWithDigit after = false) : (text ++ after).dropWhile Char.isDigit = after := by
  rw [List.dropWhile_append_of_pos h]
  cases after with
  | nil => rfl
  | cons c after => exact List.dropWhile_cons_of_neg (Bool.eq_false_iff.mp stop)

theorem takeWhile_digits {text after : List Char} (h : Digits text)
    (stop : startsWithDigit after = false) : (text ++ after).takeWhile Char.isDigit = text := by
  rw [List.takeWhile_append_of_pos h]
  cases after with
  | nil => exact List.append_nil text
  | cons c after =>
    have other : ¬c.isDigit = true := Bool.eq_false_iff.mp stop
    rw [List.takeWhile_cons_of_neg other, List.append_nil]

theorem startsWithDigit_digits {text : List Char} (h : Digits text) (after : List Char) :
    startsWithDigit (text ++ after) = (!text.isEmpty || startsWithDigit after) := by
  cases text with
  | nil => rfl
  | cons c text => exact (digits_tail h).1

/-- Gathering stops within the digits or behind them. -/
theorem gather_append {after : List Char} (stop : startsWithDigit after = false)
    (text : List Char) (value count : Nat) :
    gather value count (text ++ after) =
      ((gather value count text).1, (gather value count text).2.1,
        (gather value count text).2.2 ++ after) := by
  induction text generalizing value count with
  | nil =>
    cases after with
    | nil => rfl
    | cons c after =>
      have other : c.isDigit = false := stop
      change gather value count (c :: after) = (value, count, c :: after)
      rw [gather]
      simp only [other, Bool.false_eq_true, false_and, if_false]
  | cons c text ih =>
    rw [List.cons_append, gather, gather]
    split
    · exact ih _ _
    · rfl

theorem digits_gather {text : List Char} (h : Digits text) (value count : Nat) :
    Digits (gather value count text).2.2 := by
  induction text generalizing value count with
  | nil => exact h
  | cons c text ih =>
    rw [gather]
    split
    · exact ih (digits_tail h).2 _ _
    · exact h

theorem gatherExponent_append {after : List Char} (stop : startsWithDigit after = false)
    {text : List Char} (h : Digits text) (value : Nat) :
    (∃ exponent, gatherExponent value (text ++ after) = (some exponent, after) ∧
      gatherExponent value text = (some exponent, [])) ∨
    ∃ tail, Digits tail ∧ gatherExponent value (text ++ after) = (none, tail ++ after) ∧
      gatherExponent value text = (none, tail) := by
  induction text generalizing value with
  | nil =>
    refine .inl ⟨value, ?_, rfl⟩
    cases after with
    | nil => rfl
    | cons c after =>
      have other : c.isDigit = false := stop
      rw [List.nil_append, gatherExponent, other]
      rfl
  | cons c text ih =>
    obtain ⟨digit, digits⟩ := digits_tail h
    rw [List.cons_append, gatherExponent, gatherExponent, if_pos digit, if_pos digit]
    dsimp only
    split
    · exact .inr ⟨text, digits, rfl, rfl⟩
    · exact ih digits _

/-! ## The parts of a number -/

theorem finish_toOption (positive : Bool) (significand : Nat) (exponent : Int)
    (unread : List Char) :
    (finish positive significand exponent unread).toOption =
      ((scaled? significand exponent).map fun value =>
        Number.ofFloat (if positive then value else -value)).map fun value => (value, unread) := by
  rw [finish]
  cases scaled? significand exponent <;> rfl

theorem settles_finish (positive : Bool) (significand : Nat) (exponent : Int) :
    Settles (finish positive significand exponent) [] :=
  ⟨_, fun rest _ => finish_toOption positive significand exponent rest⟩

def exponentTail (positive : Bool) (significand : Nat) (start : Int) (upward : Bool) (c : Char)
    (text : List Char) : Reading Number :=
  match gatherExponent (c.toNat - '0'.toNat) text with
  | (some value, unread) =>
    finish positive significand (if upward then start + value else start - value) unread
  | (none, unread) =>
    if significand ≠ 0 ∧ upward then refuse .numberOutOfRange unread
    else .ok (.ofFloat (if positive then 0 else -0.0), unread.dropWhile Char.isDigit)

theorem settles_exponentTail (positive : Bool) (significand : Nat) (start : Int) (upward : Bool)
    (c : Char) {digits : List Char} (h : Digits digits) :
    Settles (exponentTail positive significand start upward c) digits := by
  have stop {rest : List Char} (ends : EndsNumber rest) := startsWithDigit_of_ends ends
  rcases gatherExponent_append (stop endsNumber_nil) h (c.toNat - '0'.toNat) with
    ⟨exponent, -, whole⟩ | ⟨tail, -, -, whole⟩
  · obtain ⟨found, reads⟩ := settles_finish positive significand
      (if upward then start + exponent else start - exponent)
    refine ⟨found, fun rest ends => ?_⟩
    rcases gatherExponent_append (stop ends) h (c.toNat - '0'.toNat) with
      ⟨exponent', here, same⟩ | ⟨tail, -, -, same⟩
    · cases whole.symm.trans same
      rw [exponentTail, here]
      exact reads rest ends
    · cases whole.symm.trans same
  · by_cases large : significand ≠ 0 ∧ upward
    · refine .of_error fun rest ends => ?_
      rcases gatherExponent_append (stop ends) h (c.toNat - '0'.toNat) with
        ⟨exponent', -, same⟩ | ⟨tail', -, here, -⟩
      · cases whole.symm.trans same
      · rw [exponentTail, here]
        simp only [if_pos large]
        rfl
    · refine ⟨some (.ofFloat (if positive then 0 else -0.0)), fun rest ends => ?_⟩
      rcases gatherExponent_append (stop ends) h (c.toNat - '0'.toNat) with
        ⟨exponent', -, same⟩ | ⟨tail', digits', here, -⟩
      · cases whole.symm.trans same
      · rw [exponentTail, here]
        simp only [if_neg large, dropWhile_digits digits' (stop ends)]
        rfl

theorem readExponent_digit (positive : Bool) (significand : Nat) (start : Int) {c : Char}
    (digit : c.isDigit = true) (text : List Char) :
    readExponent positive significand start (c :: text) =
      exponentTail positive significand start true c text := by
  rw [readExponent]
  · rw [digit]
    rfl
  · rintro rest ⟨⟩
    exact absurd digit (by decide)
  · rintro rest ⟨⟩
    exact absurd digit (by decide)

theorem readExponent_sign (positive : Bool) (significand : Nat) (start : Int) {sign c : Char}
    (signs : (sign == '+' || sign == '-') = true) (digit : c.isDigit = true) (text : List Char) :
    readExponent positive significand start (sign :: c :: text) =
      exponentTail positive significand start (sign == '+') c text := by
  rw [Bool.or_eq_true, beq_iff_eq, beq_iff_eq] at signs
  rcases signs with rfl | rfl
  all_goals
    rw [readExponent, digit]
    rfl

theorem settles_exponent (positive : Bool) (significand : Nat) (start : Int)
    {text : List Char} (h : Exponent ('e' :: text)) :
    Settles (readExponent positive significand start) text := by
  generalize whole : 'e' :: text = exponent at h
  cases h with
  | none => cases whole
  | @plain c digits all =>
    cases whole
    obtain ⟨digit, others⟩ := digits_tail all
    obtain ⟨found, reads⟩ := settles_exponentTail positive significand start true c others
    refine ⟨found, fun rest ends => ?_⟩
    rw [List.cons_append, readExponent_digit positive significand start digit]
    exact reads rest ends
  | @signed sign c digits signs all =>
    cases whole
    obtain ⟨digit, others⟩ := digits_tail all
    obtain ⟨found, reads⟩ :=
      settles_exponentTail positive significand start (sign == '+') c others
    refine ⟨found, fun rest ends => ?_⟩
    rw [List.cons_append, List.cons_append,
      readExponent_sign positive significand start signs digit]
    exact reads rest ends

/-- What is read behind the digits of a number: an exponent, or nothing more. -/
def numberTail (positive : Bool) (significand : Nat) (start : Int) (text : List Char) :
    Reading Number :=
  match text with
  | 'e' :: after => readExponent positive significand start after
  | 'E' :: after => readExponent positive significand start after
  | _ => finish positive significand start text

theorem numberTail_ends (positive : Bool) (significand : Nat) (start : Int) {rest : List Char}
    (ends : EndsNumber rest) :
    numberTail positive significand start rest = finish positive significand start rest := by
  rw [numberTail]
  · rintro after rfl
    exact absurd rfl (ends _ after rfl).2.2.1
  · rintro after rfl
    exact absurd rfl (ends _ after rfl).2.2.2

theorem settles_numberTail (positive : Bool) (significand : Nat) (start : Int)
    {text : List Char} (h : Exponent text) :
    Settles (numberTail positive significand start) text := by
  cases h with
  | none =>
    obtain ⟨found, reads⟩ := settles_finish positive significand start
    refine ⟨found, fun rest ends => ?_⟩
    rw [List.nil_append, numberTail_ends positive significand start ends]
    exact reads rest ends
  | plain all => exact settles_exponent positive significand start (.plain all)
  | signed signs all => exact settles_exponent positive significand start (.signed signs all)

theorem stops_exponent {text rest : List Char} (h : Exponent text) (ends : EndsNumber rest) :
    startsWithDigit (text ++ rest) = false := by
  cases h with
  | none => exact startsWithDigit_of_ends ends
  | plain | signed => rfl

/-- The digits of a fraction and what stands behind them. -/
theorem settles_fraction (positive : Bool) (significand : Nat) (start : Int)
    {digits exponent : List Char} (h : Digits digits) (he : Exponent exponent) :
    Settles (readFraction positive significand start) (digits ++ exponent) := by
  generalize found : gather significand 0 digits = gathered
  obtain ⟨value, count, tail⟩ := gathered
  have digitsTail : Digits tail := by
    have all := digits_gather h significand 0
    rwa [found] at all
  have split (rest : List Char) (ends : EndsNumber rest) :
      gather significand 0 (digits ++ exponent ++ rest) =
        (value, count, tail ++ (exponent ++ rest)) := by
    rw [List.append_assoc, gather_append (stops_exponent he ends), found]
  by_cases missing : tail = [] ∧ count = 0
  · obtain ⟨rfl, rfl⟩ := missing
    refine .of_error fun rest ends => ?_
    rw [readFraction]
    simp only [split rest ends, List.nil_append, stops_exponent he ends, Bool.false_eq_true,
      if_false, beq_self_eq_true, if_true]
    split <;> rfl
  · obtain ⟨result, reads⟩ := settles_numberTail positive value (start - count) he
    refine ⟨result, fun rest ends => ?_⟩
    have after : (if startsWithDigit (tail ++ (exponent ++ rest)) = true then
        (false, (tail ++ (exponent ++ rest)).dropWhile Char.isDigit)
        else (count == 0, tail ++ (exponent ++ rest))) = (false, exponent ++ rest) := by
      rw [startsWithDigit_digits digitsTail, stops_exponent he ends, Bool.or_false]
      cases tail with
      | nil =>
        have some : count ≠ 0 := fun none => missing ⟨rfl, none⟩
        simp [some]
      | cons c tail =>
        rw [dropWhile_digits digitsTail (stops_exponent he ends)]
        rfl
    rw [← reads rest ends, readFraction, split rest ends]
    simp only [after, Bool.false_eq_true, if_false]
    rfl

/-- What is read behind the whole part of a number, of which some digits did not fit. -/
def wholeTail (positive : Bool) (value : Nat) (long : List Char) (text : List Char) :
    Reading Number :=
  match text with
  | '.' :: fraction => readFraction positive value long.length fraction
  | 'e' :: exponent => readExponent positive value long.length exponent
  | 'E' :: exponent => readExponent positive value long.length exponent
  | _ =>
    if long.isEmpty then .ok (wholeNumber positive value, text)
    else finish positive value long.length text

theorem wholeTail_ends (positive : Bool) (value : Nat) (long : List Char) {rest : List Char}
    (ends : EndsNumber rest) :
    wholeTail positive value long rest =
      if long.isEmpty then .ok (wholeNumber positive value, rest)
      else finish positive value long.length rest := by
  rw [wholeTail]
  · rintro after rfl
    exact absurd rfl (ends _ after rfl).2.1
  · rintro after rfl
    exact absurd rfl (ends _ after rfl).2.2.1
  · rintro after rfl
    exact absurd rfl (ends _ after rfl).2.2.2

theorem settles_wholeTail (positive : Bool) (value : Nat) (long : List Char)
    {fraction exponent : List Char} (hf : Fraction fraction) (he : Exponent exponent) :
    Settles (wholeTail positive value long) (fraction ++ exponent) := by
  cases hf with
  | point digits => exact settles_fraction positive value long.length digits he
  | none =>
    cases he with
    | plain all => exact settles_exponent positive value long.length (.plain all)
    | signed signs all => exact settles_exponent positive value long.length (.signed signs all)
    | none =>
      by_cases fits : long.isEmpty = true
      · refine ⟨some (wholeNumber positive value), fun rest ends => ?_⟩
        rw [List.append_nil, List.nil_append, wholeTail_ends positive value long ends, if_pos fits]
        rfl
      · obtain ⟨found, reads⟩ := settles_finish positive value long.length
        refine ⟨found, fun rest ends => ?_⟩
        rw [List.append_nil, List.nil_append, wholeTail_ends positive value long ends, if_neg fits]
        exact reads rest ends

theorem stops_fraction {fraction exponent rest : List Char} (hf : Fraction fraction)
    (he : Exponent exponent) (ends : EndsNumber rest) :
    startsWithDigit (fraction ++ exponent ++ rest) = false := by
  cases hf with
  | none => exact stops_exponent he ends
  | point => rfl

/-- The text of a number without a sign settles. -/
theorem settles_readNumber (positive : Bool) {text : List Char} (h : Numeral text) :
    Settles (readNumber positive) text := by
  obtain @⟨whole, fraction, exponent, digits, scalable, hf, he⟩ := h
  cases whole with
  | nil => exact absurd scalable (by decide)
  | cons c others =>
    obtain ⟨digit, digits⟩ := digits_tail digits
    have place (rest : List Char) : (c :: others) ++ (fraction ++ exponent) ++ rest =
        c :: (others ++ (fraction ++ exponent ++ rest)) := by
      rw [List.append_assoc, List.cons_append]
    have lead (rest : List Char) (ends : EndsNumber rest) :
        startsWithDigit (others ++ (fraction ++ exponent ++ rest)) = !others.isEmpty := by
      rw [startsWithDigit_digits digits, stops_fraction hf he ends, Bool.or_false]
    by_cases padded : c = '0' ∧ others ≠ []
    · -- A leading zero is refused.
      refine .of_error fun rest ends => ?_
      rw [place, readNumber, lead rest ends, if_pos (by simpa using padded)]
      rfl
    · generalize taken : (if c = '0' then (0, 0, []) else
        gather (c.toNat - '0'.toNat) 0 others : Nat × Nat × List Char) = parts
      obtain ⟨value, count, tail⟩ := parts
      have digitsTail : Digits tail := by
        split at taken
        · cases taken
          intro c member
          cases member
        · have all := digits_gather digits (c.toNat - '0'.toNat) 0
          rwa [taken] at all
      have gathered (rest : List Char) (ends : EndsNumber rest) :
          (if c = '0' then (0, 0, others ++ (fraction ++ exponent ++ rest)) else
            gather (c.toNat - '0'.toNat) 0 (others ++ (fraction ++ exponent ++ rest))) =
            (value, count, tail ++ (fraction ++ exponent ++ rest)) := by
        by_cases zero : c = '0'
        · rw [if_pos zero] at taken ⊢
          cases taken
          have none : others = [] := Decidable.byContradiction fun some => padded ⟨zero, some⟩
          rw [none]
        · rw [if_neg zero] at taken ⊢
          rw [gather_append (stops_fraction hf he ends), taken]
      obtain ⟨found, reads⟩ := settles_wholeTail positive value tail hf he
      refine ⟨found, fun rest ends => ?_⟩
      have stop := stops_fraction hf he ends
      rw [← reads rest ends, place, readNumber, lead rest ends, if_neg (by simpa using padded),
        if_pos digit, gathered rest ends]
      simp only [takeWhile_digits digitsTail stop, dropWhile_digits digitsTail stop]
      rfl

/-! ## Numbers -/

theorem numeral_starts {text : List Char} (h : Numeral text) :
    ∃ c rest, text = c :: rest ∧ c.isDigit = true := by
  obtain @⟨whole, fraction, exponent, all, scalable, -, -⟩ := h
  cases whole with
  | nil => exact absurd scalable (by decide)
  | cons c whole => exact ⟨c, _, rfl, (digits_tail all).1⟩

/-- The text of a number starts with a minus sign or a digit. -/
theorem number_starts (number : Number) :
    ∃ c text, number.text.toList = c :: text ∧ (c = '-' ∨ c.isDigit = true) := by
  obtain ⟨sign, text, whole, signs, numeral⟩ := Script.numeral_text number
  rcases signs with rfl | rfl
  · obtain ⟨c, rest, rfl, digit⟩ := numeral_starts numeral
    exact ⟨c, rest, whole, .inr digit⟩
  · exact ⟨'-', text, whole, .inl rfl⟩

theorem toOption_map {α β : Type} (convert : α → β) (result : Reading α) :
    (result.map convert).toOption = result.toOption.map fun read => (convert read.1, read.2) := by
  cases result <;> rfl

/-- The text of every number settles for a reader of any value. -/
theorem settles_number (deeper : Option (List Char → Reading Json)) (number : Number) :
    Settles (readAny deeper) number.text.toList := by
  obtain ⟨sign, text, whole, signs, numeral⟩ := Script.numeral_text number
  rw [whole]
  rcases signs with rfl | rfl
  · obtain ⟨found, reads⟩ := settles_readNumber true numeral
    obtain ⟨c, others, rfl, digit⟩ := numeral_starts numeral
    refine ⟨found.map Json.number, fun rest ends => ?_⟩
    have starts : startsWithDigit ([] ++ (c :: others) ++ rest) = true := digit
    rw [readAny_digit deeper starts, toOption_map, List.nil_append, reads rest ends,
      Option.map_map, Option.map_map]
    rfl
  · obtain ⟨found, reads⟩ := settles_readNumber false numeral
    refine ⟨found.map Json.number, fun rest ends => ?_⟩
    change ((readNumber false (text ++ rest)).map Json.number).toOption = _
    rw [toOption_map, reads rest ends, Option.map_map, Option.map_map]
    rfl

/-- A number as it is read from its own text. -/
def Number.readBack (number : Number) : Option Json :=
  (readAny none number.text.toList).toOption.map Prod.fst

/-- A number is read in the same way wherever its text stands. -/
theorem readAny_number (deeper : Option (List Char → Reading Json)) (number : Number)
    {rest : List Char} (ends : EndsNumber rest) :
    (readAny deeper (number.text.toList ++ rest)).toOption =
      number.readBack.map fun value => (value, rest) := by
  have shallow : readAny deeper (number.text.toList ++ rest) =
      readAny none (number.text.toList ++ rest) := by
    obtain ⟨c, text, whole, starts⟩ := number_starts number
    rw [whole, List.cons_append]
    rcases starts with rfl | digit
    · rfl
    · have digits : startsWithDigit (c :: (text ++ rest)) = true := digit
      rw [readAny_digit deeper digits, readAny_digit none digits]
  obtain ⟨found, reads⟩ := settles_number none number
  have alone := reads [] endsNumber_nil
  rw [List.append_nil] at alone
  rw [shallow, reads rest ends, Number.readBack, alone]
  cases found <;> rfl

end BlockLoom.Json
