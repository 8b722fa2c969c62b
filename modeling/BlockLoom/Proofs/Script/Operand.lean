import BlockLoom.Proofs.Script.Numeral
import BlockLoom.Script.Program

/-!
Expressions of a single operand. Where a comma or a closing bracket follows, an
operand has neither a suffix nor a continuation, so the expression ends with it.
-/

namespace BlockLoom.Script

open Scan

/-! ## Where an expression ends -/

def closers : List Char := [',', ']', '\x7d', ')', ';']

/-- A place with one of these characters as the next token. -/
def Closing (here : Cursor) : Prop :=
  ∃ c rest, here.skip.rest = c :: rest ∧ c ∈ closers

/-- A text that ends an expression, blanks before the end aside. -/
def Ends (text : List Char) : Prop :=
  ∃ blanks c rest, text = blanks ++ c :: rest ∧ Blanks blanks ∧ c ∈ closers

private theorem closers_solid : ∀ c ∈ closers, isBlank c = false ∧ c ≠ '/' ∧
    isWordPart c = false ∧ c ≠ '\\' ∧ c ≠ '.' :=
  forall_mem_of_all (by decide)

theorem startsToken_closer {c : Char} (rest : List Char) (h : c ∈ closers) :
    StartsToken (c :: rest) :=
  ⟨c, rest, rfl, (closers_solid c h).1, (closers_solid c h).2.1⟩

theorem ends_blanks {blanks : List Char} (hb : Blanks blanks) {c : Char} (h : c ∈ closers)
    (rest : List Char) : Ends (blanks ++ c :: rest) :=
  ⟨blanks, c, rest, rfl, hb, h⟩

theorem ends_cons {c : Char} (h : c ∈ closers) (rest : List Char) : Ends (c :: rest) :=
  ends_blanks blanks_nil h rest

theorem ends_comma (rest : List Char) : Ends (',' :: rest) := ends_cons (by decide) rest

theorem Ends.closing {text : List Char} (h : Ends text) (offset : Nat) :
    Closing ⟨offset, text⟩ := by
  obtain ⟨blanks, c, rest, rfl, hb, closer⟩ := h
  exact ⟨c, rest, by rw [skip_blanks offset hb (startsToken_closer rest closer)], closer⟩

theorem Closing.skip {here : Cursor} (h : Closing here) : Closing here.skip := by
  obtain ⟨c, rest, hrest, closer⟩ := h
  refine ⟨c, rest, ?_, closer⟩
  have at' : here.skip = ⟨here.skip.offset, c :: rest⟩ := by rw [← hrest]
  rw [at', skip_token _ (startsToken_closer rest closer)]

private theorem Ends.opens {text : List Char} (h : Ends text) :
    ∀ c rest, text = c :: rest → isWordPart c = false ∧ c ≠ '\\' ∧ c ≠ '.' := by
  obtain ⟨blanks, c, rest, rfl, hb, closer⟩ := h
  intro d tail heq
  match blanks with
  | [] =>
    obtain ⟨rfl, -⟩ := List.cons.inj heq
    exact (closers_solid c closer).2.2
  | b :: blanks =>
    cases heq
    have blank := hb d List.mem_cons_self
    refine ⟨by simp [isWordPart, blank], ?_, ?_⟩ <;>
      (rintro rfl; exact absurd blank (by decide))

theorem Ends.endsNumeral {text : List Char} (h : Ends text) : EndsNumeral text :=
  fun c rest heq => ⟨(h.opens c rest heq).1, (h.opens c rest heq).2.2⟩

theorem Ends.endsWord {text : List Char} (h : Ends text) : EndsWord text :=
  fun c rest heq => ⟨(h.opens c rest heq).1, (h.opens c rest heq).2.1⟩

namespace Closing

variable {here : Cursor}

theorem symbol {token : String} (h : Closing here)
    (other : token.toList.head? ∉ closers.map some) (nonempty : token.toList ≠ []) :
    (Scan.symbol token).run here = none := by
  obtain ⟨c, rest, hrest, closer⟩ := h
  obtain ⟨d, others, htoken⟩ := List.exists_cons_of_ne_nil nonempty
  refine symbol_stuck (c := c) (by rw [hrest]; rfl) htoken ?_
  rintro rfl
  exact other (List.mem_map.mpr ⟨d, closer, by rw [htoken]; rfl⟩)

theorem word (h : Closing here) : Scan.word.run here = none := by
  obtain ⟨c, rest, hrest, closer⟩ := h
  obtain ⟨-, -, part, escape, -⟩ := closers_solid c closer
  refine word_stuck ?_
  rw [hrest, wordLength_stuck rest (by simp [isWordStart, part]) escape]

theorem keywordIn (names : List String) (h : Closing here) :
    (Scan.keywordIn names).run here = none := by
  unfold Scan.keywordIn
  exact run_stuck _ h.word

private theorem startsWithAny_stuck {tokens : List String} {c : Char} (rest : List Char)
    (closer : c ∈ closers)
    (h : ∀ token ∈ tokens, token.toList.head? ∉ closers.map some ∧ token.toList ≠ []) :
    startsWithAny tokens (c :: rest) = none := by
  unfold startsWithAny
  rw [List.find?_eq_none]
  intro token mem
  obtain ⟨other, nonempty⟩ := h token mem
  obtain ⟨d, others, htoken⟩ := List.exists_cons_of_ne_nil nonempty
  rw [htoken] at other ⊢
  have different : d ≠ c := by
    rintro rfl
    exact other (List.mem_map.mpr ⟨d, closer, rfl⟩)
  simp [List.isPrefixOf, different]

private theorem tokens_open : ∀ token ∈ assignments ++ operators,
    token.toList.head? ∉ closers.map some ∧ token.toList ≠ [] := by
  decide

theorem operator (h : Closing here) : Script.operator.run here = none := by
  obtain ⟨c, rest, hrest, closer⟩ := h
  have noAssignment : startsWithAny assignments here.skip.rest = none := by
    rw [hrest]
    exact startsWithAny_stuck rest closer fun token mem =>
      tokens_open token (List.mem_append_left _ mem)
  have noOperator : startsWithAny operators here.skip.rest = none := by
    rw [hrest]
    exact startsWithAny_stuck rest closer fun token mem =>
      tokens_open token (List.mem_append_right _ mem)
  unfold Script.operator
  rw [run_then (run_look here), noAssignment, noOperator]
  exact keywordIn _ (Closing.skip ⟨c, rest, hrest, closer⟩)

theorem symbolUnless {token : String} (longer : List Char) (h : Closing here)
    (other : token.toList.head? ∉ closers.map some) (nonempty : token.toList ≠ []) :
    (Scan.symbolUnless token longer).run here = none := by
  unfold Scan.symbolUnless
  exact run_stuck _ (h.symbol other nonempty)

theorem assignmentOperator (h : Closing here) : Script.assignmentOperator.run here = none := by
  obtain ⟨c, rest, hrest, closer⟩ := h
  have noAssignment : startsWithAny assignments here.skip.rest = none := by
    rw [hrest]
    exact startsWithAny_stuck rest closer fun token mem =>
      tokens_open token (List.mem_append_left _ mem)
  unfold Script.assignmentOperator
  rw [run_then (run_look here), noAssignment]
  exact symbolUnless _ (Closing.skip ⟨c, rest, hrest, closer⟩) (by decide) (by decide)

theorem suffix (g : Grammar) (context : Context) (calls : Bool) (start : Cursor) (base : Tree)
    (h : Closing here) : (Script.suffix g context calls start base).run here = none := by
  obtain ⟨c, rest, hrest, closer⟩ := h
  unfold Script.suffix
  simp only [closers, List.mem_cons, List.not_mem_nil, or_false] at closer
  dsimp only
  refine guarded_stuck _ ?_
  rw [run_then (run_look here), hrest]
  rcases closer with rfl | rfl | rfl | rfl | rfl <;> rfl

theorem continuation (g : Grammar) (context : Context) (h : Closing here) :
    (Script.continuation g context).run here = none := by
  unfold Script.continuation
  dsimp only
  refine guarded_stuck _ ?_
  rw [run_second _ (run_stuck _ (h.keywordIn _)), run_second _ (run_stuck _ h.operator)]
  refine run_stuck _ ?_
  rw [run_second _ (h.symbolUnless _ (by decide) (by decide))]
  obtain ⟨c, rest, hrest, closer⟩ := h
  rw [run_then (run_look here), hrest]
  simp only [closers, List.mem_cons, List.not_mem_nil, or_false] at closer
  rcases closer with rfl | rfl | rfl | rfl | rfl <;> rfl

theorem suffixes (g : Grammar) (context : Context) (calls : Bool) (start : Cursor) (count : Nat)
    (base : Tree) (h : Closing here) :
    (Script.suffixes g context calls start count base).run here = some (base, here) := by
  match count with
  | 0 => rfl
  | count + 1 =>
    unfold Script.suffixes
    rw [run_then (optional?_stuck (h.suffix g context calls start base))]
    rfl

end Closing

/-! ## Operands -/

/-- An operand with its suffixes is a place, if nothing is assigned to it. The suffixes end where
the text behind them starts no further one. -/
theorem place_suffixed {g : Grammar} {context : Context}
    {text rest : List Char} {base tree : Tree} {there : Cursor} (offset : Nat)
    (token : StartsToken (text ++ rest)) (ends : Ends rest)
    (h : (bareOperand g context ⟨offset, text ++ rest⟩).run ⟨offset, text ++ rest⟩ =
      some (base, there))
    (others : (Script.suffixes g context true ⟨offset, text ++ rest⟩ (text ++ rest).length
      base).run there = some (tree, ⟨offset + text.length, rest⟩)) :
    (place g context).run ⟨offset, text ++ rest⟩ = some (tree, ⟨offset + text.length, rest⟩) := by
  have closing := ends.closing (offset + text.length)
  unfold place
  rw [run_then (run_trivia _), skip_token offset token, run_then (run_get _)]
  refine run_first _ ?_
  rw [run_then h, run_then others]
  have unassigned : (optional? (do
      if !isAssignable tree then failure
      if context.ending then continues
      assignmentOperator
      g.expression context) : Scan (Option Tree)).run ⟨offset + text.length, rest⟩ =
        some (none, ⟨offset + text.length, rest⟩) := by
    refine optional?_stuck ?_
    have nothing := run_stuck (fun _ => g.expression context) closing.assignmentOperator
    cases isAssignable tree with
    | false => rfl
    | true =>
      cases context.ending with
      | false => exact nothing
      | true => exact continues_stuck nothing
  have unbound : (absent (symbolUnless "=" ['=', '>'])).run ⟨offset + text.length, rest⟩ =
      some ((), ⟨offset + text.length, rest⟩) :=
    absent_stuck (closing.symbolUnless _ (by decide) (by decide))
  rw [run_then unassigned]
  simp only
  rw [run_then (run_get _)]
  split
  · rw [run_then unbound]
    rfl
  · rfl

/-- An operand without suffixes is a place. -/
theorem place_reads {g : Grammar} {context : Context}
    {text rest : List Char} {tree : Tree} (offset : Nat) (token : StartsToken (text ++ rest))
    (ends : Ends rest)
    (h : (bareOperand g context ⟨offset, text ++ rest⟩).run ⟨offset, text ++ rest⟩ =
      some (tree, ⟨offset + text.length, rest⟩)) :
    (place g context).run ⟨offset, text ++ rest⟩ = some (tree, ⟨offset + text.length, rest⟩) :=
  place_suffixed offset token ends h ((ends.closing _).suffixes g context true _ _ tree)

/-- A text that starts neither with a sign, nor with a word before an operand, nor with
an angle bracket. -/
structure StartsPlain (text : List Char) : Prop where
  token : StartsToken text
  unsigned : ∀ offset, prefixSign.run ⟨offset, text⟩ = none
  angle : text.head? ≠ some '<'
  yields : String.ofList (text.take (wordLength text)) ≠ "yield"

/-- The words that stand before an operand. -/
def prefixWords : List String := ["typeof", "void", "delete", "await", "yield"]

theorem startsPlain_word {c : Char} {name rest : List Char} (start : isWordStart c = true)
    (parts : ∀ d ∈ name, isWordPart d = true) (ends : EndsWord rest)
    (free : String.ofList (c :: name) ∉ prefixWords) : StartsPlain (c :: name ++ rest) := by
  have token : StartsToken (c :: name ++ rest) := startsToken_word _ start
  have other : ∀ mark ∈ punctuation, c ≠ mark := fun _ mem => ne_of_isWordStart start mem
  refine ⟨token, fun offset => ?_, fun angle => other '<' (by decide) (Option.some.inj angle), ?_⟩
  · unfold prefixSign
    rw [run_then (run_look _), skip_token offset token]
    split
    · next heq => exact absurd (List.cons.inj heq).1 (other '+' (by decide))
    · next heq => exact absurd (List.cons.inj heq).1 (other '-' (by decide))
    · next heq =>
      obtain ⟨rfl, rfl⟩ := List.cons.inj heq
      have sign : "!~+-".toList.contains c = false := by
        rw [List.contains_eq_mem, decide_eq_false_iff_not]
        exact fun mem => other c (forall_mem_of_all (by decide) c mem) rfl
      have word : ["typeof", "void", "delete", "await"].contains (String.ofList (c :: name)) =
          false := by
        rw [List.contains_eq_mem, decide_eq_false_iff_not]
        exact fun mem => free (List.mem_append_left ["yield"] mem)
      simp only [sign, Bool.false_eq_true, if_false]
      rw [run_then (word_reads offset start parts ends), word]
      rfl
    · next heq => cases heq
  · rw [wordLength_reads start parts ends, List.take_left]
    rintro same
    exact free (same ▸ List.mem_append_right ["typeof", "void", "delete", "await"]
      List.mem_cons_self)

theorem markup?_none {c : Char} (rest : List Char) (angle : c ≠ '<') (dash : c ≠ '-') :
    markup? (c :: rest) = none := by
  simp [markup?, List.isPrefixOf, angle.symm, dash.symm]

/-- The characters that neither start a word nor open anything that comes before an operand. -/
structure OpensPlain (c : Char) : Prop where
  blank : isBlank c = false
  start : isWordStart c = false
  other : c ∉ ['/', '<', '!', '~', '+', '-', '\\']

theorem OpensPlain.ne {c d : Char} (h : OpensPlain c)
    (mem : d ∈ ['/', '<', '!', '~', '+', '-', '\\']) : c ≠ d := by
  rintro rfl
  exact h.other mem

theorem OpensPlain.token {c : Char} (h : OpensPlain c) (rest : List Char) :
    StartsToken (c :: rest) :=
  ⟨c, rest, rfl, h.blank, h.ne (by decide)⟩

theorem OpensPlain.unmarked {c : Char} (h : OpensPlain c) (rest : List Char) :
    markup? (c :: rest) = none :=
  markup?_none rest (h.ne (by decide)) (h.ne (by decide))

theorem OpensPlain.plain {c : Char} (h : OpensPlain c) (rest : List Char) :
    StartsPlain (c :: rest) := by
  have noWord := wordLength_stuck rest h.start (h.ne (by decide))
  have token := h.token rest
  have unsigned (offset : Nat) : prefixSign.run ⟨offset, c :: rest⟩ = none := by
    have stuck : word.run ⟨offset, c :: rest⟩ = none :=
      word_stuck (by rw [skip_token offset token]; exact noWord)
    have sign : ("!~+-".toList.contains c) = false := by
      have none : ∀ d ∈ "!~+-".toList, c ≠ d := fun d mem =>
        h.ne (forall_mem_of_all (by decide) d mem)
      rw [List.contains_eq_mem, decide_eq_false_iff_not]
      exact fun mem => none c mem rfl
    unfold prefixSign
    rw [run_then (run_look _), skip_token offset token]
    split
    · next heq => exact absurd (List.cons.inj heq).1 (h.ne (by decide))
    · next heq => exact absurd (List.cons.inj heq).1 (h.ne (by decide))
    · next heq =>
      obtain ⟨rfl, rfl⟩ := List.cons.inj heq
      simp only [sign, Bool.false_eq_true, if_false]
      exact run_stuck _ stuck
    · next heq => cases heq
  have angle : (c :: rest).head? ≠ some '<' :=
    fun opened => h.ne (by decide) (Option.some.inj opened)
  exact ⟨token, unsigned, angle, by rw [noWord, List.take_zero]; decide⟩

def signs : Scan (List (Cursor × String)) :=
  many do
    trivia
    let start ← get
    return (start, ← prefixSign)

theorem signs_none {text : List Char} (plain : StartsPlain text) (offset : Nat) :
    signs.run ⟨offset, text⟩ = some ([], ⟨offset, text⟩) := by
  refine many_stuck ?_
  rw [run_then (run_trivia _), skip_token offset plain.token, run_then (run_get _)]
  exact run_stuck _ (plain.unsigned _)

/-- An operand after its signs, which are wrapped around it. -/
theorem operand_signed {g : Grammar} {context : Context} {here : Cursor}
    {found : List (Cursor × String)} {text rest : List Char} {tree : Tree}
    (offset : Nat) (before : signs.run here = some (found, ⟨offset, text ++ rest⟩))
    (plain : StartsPlain (text ++ rest))
    (placed : (place g context).run ⟨offset, text ++ rest⟩ =
      some (tree, ⟨offset + text.length, rest⟩)) :
    (operand g context).run here = (wrapSigns found tree).run ⟨offset + text.length, rest⟩ := by
  unfold operand
  refine (run_then before).trans ?_
  rw [run_then (run_trivia _), skip_token offset plain.token, run_then (run_get _),
    run_then (run_look _), skip_token offset plain.token]
  split
  · next tail heq =>
    have opened : text ++ rest = '<' :: tail := heq
    exact absurd (by rw [opened]; rfl) plain.angle
  · simp only
    rw [run_then (run_peekWord _), skip_token offset plain.token]
    simp only [beq_iff_eq, plain.yields, if_false]
    exact run_then placed

theorem operand_reads {g : Grammar} {context : Context} {text rest : List Char} {tree : Tree}
    (offset : Nat) (plain : StartsPlain (text ++ rest))
    (placed : (place g context).run ⟨offset, text ++ rest⟩ =
      some (tree, ⟨offset + text.length, rest⟩)) :
    (operand g context).run ⟨offset, text ++ rest⟩ =
      some (tree, ⟨offset + text.length, rest⟩) :=
  operand_signed offset (signs_none plain offset) plain placed

theorem markup_stuck {here : Cursor} (h : markup? here.skip.rest = none) :
    markup.run here = none := by
  unfold markup
  rw [run_then (run_look here), h]
  rfl

/-- An operand that nothing follows is an expression of its own: the text behind it starts neither a
suffix nor an operator. -/
theorem expression_reads {level : Nat} {context : Context}
    {blanks text rest : List Char} {tree : Tree} (offset : Nat) (hb : Blanks blanks)
    (token : StartsToken (text ++ rest)) (unmarked : markup? (text ++ rest) = none)
    (ends : Ends rest)
    (h : (operand (grammar level) context).run ⟨offset + blanks.length, text ++ rest⟩ =
      some (tree, ⟨offset + blanks.length + text.length, rest⟩)) :
    ((grammar (level + 1)).expression context).run ⟨offset, blanks ++ (text ++ rest)⟩ =
      some (tree, ⟨offset + blanks.length + text.length, rest⟩) := by
  have closing := ends.closing (offset + blanks.length + text.length)
  have skipped : (many markup).run ⟨offset, blanks ++ (text ++ rest)⟩ =
      some ([], ⟨offset, blanks ++ (text ++ rest)⟩) :=
    many_stuck (markup_stuck (by rw [skip_blanks offset hb token]; exact unmarked))
  change (readExpression (grammar level) context).run _ = _
  unfold readExpression
  rw [run_then skipped, run_then (run_trivia _), skip_blanks offset hb token,
    run_then (run_get _), run_then h,
    run_then (many_stuck (closing.continuation (grammar level) context))]
  rfl

end BlockLoom.Script
