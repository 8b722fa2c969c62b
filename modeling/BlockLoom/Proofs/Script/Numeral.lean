import BlockLoom.Proofs.Json.Text
import BlockLoom.Proofs.Script.Token

/-!
Numbers in decimal notation. The text of every JSON number is one, after a minus
sign if it is negative, and a script reads it as a number of the same length.
-/

namespace BlockLoom.Script

open Scan

/-! ## Notation -/

def Digits (text : List Char) : Prop :=
  ∀ c ∈ text, c.isDigit = true

/-- A point with digits after it, or nothing. -/
inductive Fraction : List Char → Prop where
  | none : Fraction []
  | point {digits : List Char} : Digits digits → Fraction ('.' :: digits)

/-- A power of ten with or without a sign, or nothing. -/
inductive Exponent : List Char → Prop where
  | none : Exponent []
  | plain {c : Char} {digits : List Char} : Digits (c :: digits) → Exponent ('e' :: c :: digits)
  | signed {sign c : Char} {digits : List Char} : (sign == '+' || sign == '-') = true →
      Digits (c :: digits) → Exponent ('e' :: sign :: c :: digits)

/-- A number in decimal notation, without a sign. -/
inductive Numeral : List Char → Prop where
  | mk {whole fraction exponent : List Char} : Digits whole → isScalable whole = true →
      Fraction fraction → Exponent exponent → Numeral (whole ++ (fraction ++ exponent))

def numeralMarks : List Char := ['.', 'e', '+', '-']

theorem Numeral.chars {text : List Char} (h : Numeral text) :
    ∀ c ∈ text, c.isDigit = true ∨ c ∈ numeralMarks := by
  obtain @⟨whole, fraction, exponent, digits, -, hf, he⟩ := h
  intro c mem
  rcases List.mem_append.mp mem with mem | mem
  · exact .inl (digits c mem)
  rcases List.mem_append.mp mem with mem | mem
  · cases hf with
    | none => cases mem
    | point all =>
      rcases List.mem_cons.mp mem with rfl | mem
      · exact .inr (by decide)
      · exact .inl (all c mem)
  · cases he with
    | none => cases mem
    | plain all =>
      rcases List.mem_cons.mp mem with rfl | mem
      · exact .inr (by decide)
      · exact .inl (all c mem)
    | signed sign all =>
      rcases List.mem_cons.mp mem with rfl | mem
      · exact .inr (by decide)
      rcases List.mem_cons.mp mem with rfl | mem
      · rw [Bool.or_eq_true, beq_iff_eq, beq_iff_eq] at sign
        rcases sign with rfl | rfl <;> exact .inr (by decide)
      · exact .inl (all c mem)

/-! ## Lengths -/

def EndsNumeral (text : List Char) : Prop :=
  ∀ c rest, text = c :: rest → isWordPart c = false ∧ c ≠ '.'

private theorem digitRun_reads {digits rest : List Char} (h : Digits digits)
    (ends : ∀ c tail, rest = c :: tail → c.isDigit = false ∧ c ≠ '_') :
    digitRun Char.isDigit (digits ++ rest) = digits.length := by
  induction digits with
  | nil =>
    match rest with
    | [] => rfl
    | [c] => simp [digitRun, (ends c [] rfl).1]
    | c :: d :: tail =>
      rw [List.nil_append, digitRun.eq_def]
      simp [(ends c (d :: tail) rfl).1]
  | cons c digits ih =>
    have digit : c.isDigit = true := h c List.mem_cons_self
    have read := ih fun d mem => h d (List.mem_cons_of_mem _ mem)
    match hnext : digits ++ rest with
    | [] =>
      obtain ⟨rfl, rfl⟩ := List.append_eq_nil_iff.mp hnext
      simp [digitRun, digit]
    | d :: tail =>
      have plain : (d == '_') = false := by
        rw [beq_eq_false_iff_ne]
        cases digits with
        | nil => exact (ends d tail hnext).2
        | cons e digits =>
          cases hnext
          rintro rfl
          exact absurd (h '_' (List.mem_cons_of_mem _ List.mem_cons_self)) (by decide)
      rw [hnext] at read
      rw [List.cons_append, hnext, digitRun.eq_def]
      simp [digit, plain, read]

private theorem plainEnd {rest : List Char} (ends : EndsNumeral rest) :
    ∀ c tail, rest = c :: tail → c.isDigit = false ∧ c ≠ '_' := by
  rintro c tail rfl
  obtain ⟨part, -⟩ := ends c tail rfl
  refine ⟨Bool.eq_false_iff.mpr fun digit => ?_, ?_⟩
  · exact Bool.eq_false_iff.mp part (isWordPart_of_isDigit digit)
  · rintro rfl
    exact absurd part (by decide)

private theorem fractionEnd {fraction rest : List Char} (h : Fraction fraction)
    (ends : ∀ c tail, rest = c :: tail → c.isDigit = false ∧ c ≠ '_') :
    ∀ c tail, fraction ++ rest = c :: tail → c.isDigit = false ∧ c ≠ '_' := by
  cases h with
  | none => exact ends
  | point _ =>
    intro c tail heq
    cases heq
    decide

private theorem exponentEnd {exponent rest : List Char} (h : Exponent exponent)
    (ends : EndsNumeral rest) :
    ∀ c tail, exponent ++ rest = c :: tail → c.isDigit = false ∧ c ≠ '_' := by
  cases h with
  | none => exact plainEnd ends
  | plain _ | signed _ _ =>
    intro c tail heq
    cases heq
    decide

private theorem exponentLength_reads {exponent rest : List Char} (h : Exponent exponent)
    (ends : EndsNumeral rest) : exponentLength (exponent ++ rest) = exponent.length := by
  cases h with
  | none =>
    match rest, ends with
    | [], _ => rfl
    | c :: tail, ends =>
      obtain ⟨part, -⟩ := ends c tail rfl
      have lower : (c == 'e') = false := by
        rw [beq_eq_false_iff_ne]
        rintro rfl
        exact absurd part (by decide)
      have upper : (c == 'E') = false := by
        rw [beq_eq_false_iff_ne]
        rintro rfl
        exact absurd part (by decide)
      simp [exponentLength, lower, upper]
  | @plain c digits all =>
    have unsigned : (c == '+' || c == '-') = false := by
      have digit := all c List.mem_cons_self
      rw [Bool.or_eq_false_iff, beq_eq_false_iff_ne, beq_eq_false_iff_ne]
      constructor <;> (rintro rfl; exact absurd digit (by decide))
    have run := digitRun_reads all (plainEnd ends)
    rw [List.cons_append] at run
    simp [exponentLength, unsigned, run]
  | signed sign all =>
    have run := digitRun_reads all (plainEnd ends)
    rw [List.cons_append] at run
    simp [exponentLength, sign, run]

private theorem isScalable_cons {whole : List Char} (h : isScalable whole = true) :
    ∃ c digits, whole = c :: digits := by
  cases whole with
  | nil => exact absurd h (by decide)
  | cons c digits => exact ⟨c, digits, rfl⟩

private theorem baseDigit?_none {c : Char} (h : c.isDigit = true ∨ c ∈ ['.', 'e'] ∨
    isWordPart c = false) : baseDigit? c = none := by
  have other : ∀ letter ∈ ['x', 'X', 'o', 'O', 'b', 'B'], c ≠ letter := by
    rintro letter mem rfl
    have plain : ∀ letter ∈ ['x', 'X', 'o', 'O', 'b', 'B'], letter.isDigit = false ∧
        letter ∉ ['.', 'e'] ∧ isWordPart letter = true := forall_mem_of_all (by decide)
    obtain ⟨digit, mark, part⟩ := plain c mem
    rcases h with h | h | h
    · exact Bool.false_ne_true (digit.symm.trans h)
    · exact mark h
    · exact Bool.false_ne_true (h.symm.trans part)
  simp only [List.forall_mem_cons, List.not_mem_nil, false_implies, implies_true, and_true] at other
  obtain ⟨x, X, o, O, b, B⟩ := other
  simp [baseDigit?, x, X, o, O, b, B]

private theorem afterWhole {fraction exponent rest : List Char} {c : Char} {tail : List Char}
    (hf : Fraction fraction) (he : Exponent exponent) (ends : EndsNumeral rest)
    (h : fraction ++ (exponent ++ rest) = c :: tail) :
    c ∈ ['.', 'e'] ∨ isWordPart c = false := by
  cases hf with
  | point _ => cases h; exact .inl List.mem_cons_self
  | none =>
    cases he with
    | none => exact .inr (ends c tail h).1
    | plain _ | signed _ _ => cases h; exact .inl (by decide)

private theorem basedLength_none {digits after : List Char} (h : Digits digits)
    (marks : ∀ c tail, after = c :: tail → c ∈ ['.', 'e'] ∨ isWordPart c = false) (c : Char) :
    basedLength (c :: digits ++ after) = 0 := by
  rw [List.cons_append, basedLength.eq_def]
  split
  · next letter tail heq =>
    obtain ⟨-, heq⟩ := List.cons.inj heq
    have other : letter.isDigit = true ∨ letter ∈ ['.', 'e'] ∨ isWordPart letter = false := by
      cases digits with
      | nil => exact .inr (marks letter tail heq)
      | cons d digits =>
        cases heq
        exact .inl (h letter List.mem_cons_self)
    rw [baseDigit?_none other]
  · rfl

/-- A numeral is as long as its characters, whatever ends it. -/
theorem numberLength_reads {text rest : List Char} (h : Numeral text) (ends : EndsNumeral rest) :
    numberLength (text ++ rest) = text.length := by
  obtain @⟨whole, fraction, exponent, digits, scalable, hf, he⟩ := h
  have run := digitRun_reads digits (fractionEnd hf (exponentEnd he ends))
  have power := exponentLength_reads he ends
  obtain ⟨c, others, hwhole⟩ := isScalable_cons scalable
  have digit : c.isDigit = true := digits c (hwhole ▸ List.mem_cons_self)
  have based : basedLength (whole ++ (fraction ++ (exponent ++ rest))) = 0 := by
    rw [hwhole]
    exact basedLength_none (fun d mem => digits d (hwhole ▸ List.mem_cons_of_mem _ mem))
      (fun _ _ heq => afterWhole hf he ends heq) c
  have plain : ((fraction ++ (exponent ++ rest)).head? == some 'n') = false := by
    match hafter : fraction ++ (exponent ++ rest) with
    | [] => rfl
    | d :: tail =>
      rw [List.head?_cons, beq_eq_false_iff_ne]
      rintro ⟨⟩
      rcases afterWhole hf he ends hafter with mark | part
      · exact absurd mark (by decide)
      · exact absurd part (by decide)
  have some_digit : whole.length ≠ 0 := by simp [hwhole]
  rw [List.append_assoc, List.append_assoc, numberLength.eq_def]
  simp only [based, ne_eq, not_true_eq_false, if_false]
  split
  · next heq =>
    rw [hwhole] at heq
    obtain ⟨rfl, -⟩ := List.cons.inj heq
    exact absurd digit (by decide)
  simp only [run, List.drop_left, List.take_left, plain, scalable, some_digit, if_false,
    Bool.false_eq_true, Bool.not_true]
  cases hf with
  | none =>
    simp only [List.nil_append, List.length_append]
    split
    · next tail heq =>
      cases he with
      | none => exact absurd rfl (ends '.' tail heq).2
      | plain _ | signed _ _ => cases heq
    · rw [power]
  | point all =>
    have part := digitRun_reads all (exponentEnd he ends)
    simp only [List.cons_append, part, List.drop_left, power, List.length_append, List.length_cons]
    omega

/-! ## Texts of numbers -/

private theorem digits_append {first second : List Char} (hf : Digits first) (hs : Digits second) :
    Digits (first ++ second) := by
  intro c mem
  exact (List.mem_append.mp mem).elim (hf c) (hs c)

private theorem digits_zeros (count : Int) : Digits (Decimal.zeros count).toList := by
  intro c mem
  rw [Decimal.zeros, String.toList_ofList] at mem
  rw [List.eq_of_mem_replicate mem]
  decide

private theorem digits_toDigits (n : Nat) : Digits (Nat.toDigits 10 n) :=
  fun _ mem => Json.isDigit_toDigits mem

private theorem isScalable_nonzero {c : Char} (rest : List Char) (digit : c.isDigit = true)
    (nonzero : c ≠ '0') : isScalable (c :: rest) = true := by
  rw [Char.isDigit_iff_toNat] at digit
  obtain ⟨least, most⟩ : 48 ≤ c.toNat ∧ c.toNat ≤ 57 := digit
  have other : c.toNat ≠ 48 := by
    intro heq
    exact nonzero (by rw [← Char.ofNat_toNat c, heq])
  have leads : ('1' ≤ c && c ≤ '9') = true := by
    rw [Bool.and_eq_true, decide_eq_true_eq, decide_eq_true_eq, Char.le_def, Char.le_def,
      UInt32.le_iff_toNat_le, UInt32.le_iff_toNat_le]
    change 49 ≤ c.toNat ∧ c.toNat ≤ 57
    omega
  rw [isScalable.eq_def]
  split
  · rfl
  · next heq => exact absurd (List.cons.inj heq).1 nonzero
  · next heq =>
    obtain ⟨rfl, rfl⟩ := List.cons.inj heq
    exact leads
  · next heq => cases heq

theorem numeral_whole {whole : List Char} (digits : Digits whole) (h : isScalable whole = true) :
    Numeral whole := by
  have numeral := Numeral.mk digits h .none .none
  rwa [List.append_nil, List.append_nil] at numeral

theorem numeral_toDigits (n : Nat) : Numeral (Nat.toDigits 10 n) := by
  refine numeral_whole (digits_toDigits n) ?_
  rcases Nat.eq_zero_or_pos n with rfl | pos
  · decide
  · obtain ⟨c, rest, heq, nonzero⟩ := Json.toDigits_head pos
    rw [heq]
    exact isScalable_nonzero rest (digits_toDigits n c (heq ▸ List.mem_cons_self)) nonzero

/-! ## Binary numbers -/

private theorem onGrid_positive {number : Decimal.Exact} {place : Int} {found : Decimal.Scaled}
    (positive : 0 < number.significand) (h : Decimal.onGrid number place = some found) :
    0 < found.digits := by
  have twos : 0 < Decimal.twoTo (number.exponent - 2).toNat := Nat.pow_pos (by decide)
  have tens : 0 < Decimal.tenTo (-place).toNat := Nat.pow_pos (by decide)
  have scale := Nat.mul_pos twos tens
  have low : 0 < 4 * number.significand *
      (Decimal.twoTo (number.exponent - 2).toNat * Decimal.tenTo (-place).toNat) -
        (if number.least then 1 else 2) *
          (Decimal.twoTo (number.exponent - 2).toNat * Decimal.tenTo (-place).toNat) := by
    rw [← Nat.sub_mul]
    refine Nat.mul_pos ?_ scale
    split <;> omega
  -- The multiple below the number is not zero if it lies inside the interval.
  have inside {low high point : Nat} {closed : Bool} (hlow : 0 < low)
      (h : (if closed then decide (low ≤ point) && decide (point ≤ high)
        else decide (low < point) && decide (point < high)) = true) : 0 < point := by
    cases closed <;> simp only [Bool.false_eq_true, if_true, if_false, Bool.and_eq_true,
      decide_eq_true_eq] at h <;> omega
  unfold Decimal.onGrid at h
  simp only at h
  split at h
  · next first second =>
    split at h
    · cases h
      exact Nat.pos_of_mul_pos_right (inside low first)
    · cases h
      exact Nat.succ_pos _
  · next first second =>
    cases h
    exact Nat.pos_of_mul_pos_right (inside low first)
  · cases h
    exact Nat.succ_pos _
  · cases h

private theorem shortest_positive {number : Decimal.Exact} (positive : 0 < number.significand) :
    0 < (Decimal.shortest number).digits := by
  unfold Decimal.shortest
  match hfound : Decimal.places.findSome? (Decimal.onGrid number) with
  | none => exact positive
  | some found =>
    obtain ⟨place, -, hplace⟩ := List.exists_of_findSome?_eq_some hfound
    exact onGrid_positive positive hplace

private theorem numeral_point {whole digits : List Char} (hw : Digits whole)
    (h : isScalable whole = true) (hd : Digits digits) : Numeral (whole ++ '.' :: digits) := by
  have numeral := Numeral.mk hw h (.point hd) .none
  rwa [List.append_nil] at numeral

/-- The digits of a positive number up to the point: its first digit is not zero. -/
private theorem isScalable_take {n count : Nat} (hn : 0 < n) (hc : 0 < count)
    (more : List Char) : isScalable ((Nat.toDigits 10 n).take count ++ more) = true := by
  obtain ⟨c, rest, heq, nonzero⟩ := Json.toDigits_head hn
  obtain ⟨count, rfl⟩ : ∃ less, count = less + 1 := ⟨count - 1, by omega⟩
  rw [heq, List.take_succ_cons, List.cons_append]
  exact isScalable_nonzero _ (digits_toDigits n c (heq ▸ List.mem_cons_self)) nonzero

private theorem exponent_text (power : Int) :
    Exponent ('e' :: ((if power < 0 then "-" else "+") ++ toString power.natAbs).toList) := by
  obtain ⟨c, rest, heq⟩ : ∃ c rest, Nat.toDigits 10 power.natAbs = c :: rest :=
    List.exists_cons_of_ne_nil (Nat.toDigits_ne_nil)
  have digits : Digits (c :: rest) := heq ▸ digits_toDigits _
  have text : (toString power.natAbs).toList = c :: rest := by
    rw [← heq]
    simp
  rw [String.toList_append, text]
  split
  · exact .signed (by decide) digits
  · exact .signed (by decide) digits

private theorem numeral_scaled {number : Decimal.Scaled} (positive : 0 < number.digits) :
    Numeral (number.text Json.Number.layout).toList := by
  unfold Decimal.Scaled.text
  simp only
  have all := digits_toDigits number.digits
  have taken (count : Nat) : Digits ((Nat.toDigits 10 number.digits).take count) :=
    fun c mem => all c (List.mem_of_mem_take mem)
  have dropped (count : Nat) : Digits ((Nat.toDigits 10 number.digits).drop count) :=
    fun c mem => all c (List.mem_of_mem_drop mem)
  split
  · have digits := digits_append all (digits_zeros number.exponent)
    have least : 0 < (Nat.toDigits 10 number.digits).length :=
      Nat.pos_of_ne_zero (by simp [Nat.toDigits_ne_nil])
    have scalable := isScalable_take positive least (Decimal.zeros number.exponent).toList
    rw [List.take_length] at scalable
    have zero : Digits ['0'] := by intro c mem; simp_all
    simpa [Json.Number.layout] using numeral_point digits scalable zero
  split
  · have least :
        0 < ((Nat.toDigits 10 number.digits).length + number.exponent).toNat := by omega
    have scalable := isScalable_take positive least []
    rw [List.append_nil] at scalable
    simpa using numeral_point (taken _) scalable (dropped _)
  split
  · have digits := digits_append
      (digits_zeros (-((Nat.toDigits 10 number.digits).length + number.exponent))) all
    have zero : Digits ['0'] := by intro c mem; simp_all
    simpa using numeral_point zero (by decide) digits
  · have scalable := isScalable_take positive Nat.one_pos []
    rw [List.append_nil] at scalable
    have power := exponent_text ((Nat.toDigits 10 number.digits).length + number.exponent - 1)
    split
    · have numeral := Numeral.mk (taken 1) scalable .none power
      simpa [Json.Number.layout] using numeral
    · have numeral := Numeral.mk (taken 1) scalable (.point (dropped 1)) power
      simpa [Json.Number.layout] using numeral

/-- The text of a number is a numeral, after a minus sign if the number is negative. -/
theorem numeral_text (number : Json.Number) :
    ∃ sign text, number.text.toList = sign ++ text ∧ (sign = [] ∨ sign = ['-']) ∧ Numeral text := by
  match number with
  | .integer (.ofNat n) => exact ⟨[], _, Json.toList_ofNat n, .inl rfl, numeral_toDigits n⟩
  | .integer (.negSucc n) =>
    exact ⟨['-'], _, Json.toList_negSucc n, .inr rfl, numeral_toDigits (n + 1)⟩
  | .binary bits =>
    have digits : Digits ['0'] := by intro c mem; simp_all
    have zero : Numeral (['0'] ++ ['.', '0']) := numeral_point digits (by decide) digits
    have magnitude : Numeral (if (Decimal.Exact.ofBits bits).significand = 0 then "0.0"
        else (Decimal.shortest (Decimal.Exact.ofBits bits)).text Json.Number.layout).toList := by
      split
      · exact zero
      · next nonzero => exact numeral_scaled (shortest_positive (Nat.pos_of_ne_zero nonzero))
    refine ⟨if bits.toNat / Decimal.twoTo 63 = 1 then ['-'] else [], _, ?_, ?_, magnitude⟩
    · change (Decimal.text Json.Number.layout bits).toList = _
      unfold Decimal.text
      simp only
      split <;> split <;> simp [Json.Number.layout]
    · split
      · exact .inr rfl
      · exact .inl rfl

/-- The characters of the text of a number. -/
theorem chars_number (number : Json.Number) :
    ∀ c ∈ number.text.toList, c.isDigit = true ∨ c ∈ numeralMarks := by
  obtain ⟨sign, text, htext, hsign, numeral⟩ := numeral_text number
  intro c mem
  rw [htext, List.mem_append] at mem
  rcases mem with mem | mem
  · rcases hsign with rfl | rfl
    · cases mem
    · rw [List.mem_singleton.mp mem]
      decide
  · exact numeral.chars c mem

end BlockLoom.Script
