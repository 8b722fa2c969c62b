import BlockLoom.Proofs.Script.Path

/-!
Calls that stand as statements: whatever follows the semicolon, the statement is read up to
it.
-/

namespace BlockLoom.Script

open Scan

/-! ## Calls -/

/-- Arguments between parentheses. -/
theorem callArguments_reads {ι : Type} {g : Grammar} (text : ι → List Char)
    (yields : ι → Tree → Prop) (item : ι) (items : List ι)
    (reads : ∀ other ∈ item :: items,
      Reads Ends (spread g <|> g.expression Context.inner) (text other) (yields other))
    {written : List Char}
    (h : written = '(' :: (text item ++ ((items.flatMap fun item => ',' :: text item) ++ [')'])))
    (offset : Nat) (rest : List Char) :
    ∃ children, (callArguments g).run ⟨offset, written ++ rest⟩ =
        some (⟨.arguments, offset, written, children⟩, ⟨offset + written.length, rest⟩) ∧
      List.Forall₂ yields (item :: items) children :=
  have opens : "(".toList = ['('] := rfl
  have bracket : ")".toList = [')'] := rfl
  have closer : ')' ∈ closers := by decide
  bracketed_reads opens (fun rest => ⟨'(', rest, rfl, by decide, by decide⟩) bracket closer
    (by decide) text item items reads (fun _ _ rest _ => ends_comma _) (ends_cons closer) h offset
    rest

theorem suffix_call (g : Grammar) (context : Context) (start : Cursor) (base : Tree)
    {given : Tree} {rest : List Char} {there : Cursor} {offset : Nat}
    (h : (callArguments g).run ⟨offset, '(' :: rest⟩ = some (given, there)) :
    (suffix g context true start base).run ⟨offset, '(' :: rest⟩ =
      some (⟨.call, start.offset, start.rest.take (there.offset - start.offset), [base, given]⟩,
        there) := by
  have passed : continues.run ⟨offset, '(' :: rest⟩ = some ((), ⟨offset, '(' :: rest⟩) :=
    run_continues_token offset (by decide) (by decide) (by decide)
  have opened : StartsToken ('(' :: rest) := ⟨'(', _, rfl, by decide, by decide⟩
  unfold suffix
  dsimp only
  rw [run_guarded _ passed, run_then (run_look _), skip_token offset opened]
  exact run_then h

theorem suffixes_next {g : Grammar} {context : Context} {calls : Bool} {start : Cursor}
    {count : Nat} {base next : Tree} {here there : Cursor}
    (h : (suffix g context calls start base).run here = some (next, there)) :
    (suffixes g context calls start (count + 1) base).run here =
      (suffixes g context calls start count next).run there :=
  run_then (optional?_reads h)

/-- A call is read with its arguments once its callee has been read. -/
theorem place_call {g : Grammar} {context : Context} {name args rest : List Char}
    {base callee given : Tree} {start there : Cursor} {steps : Nat} (offset : Nat)
    (hstart : start = ⟨offset, (name ++ '(' :: args) ++ ';' :: rest⟩)
    (token : StartsToken ((name ++ '(' :: args) ++ ';' :: rest))
    (first : (bareOperand g context start).run start = some (base, there))
    (few : steps ≤ name.length)
    (called : ∀ count, (suffixes g context true start (count + steps) base).run there =
      (suffixes g context true start count callee).run
        ⟨offset + name.length, '(' :: args ++ ';' :: rest⟩)
    (arguments : (callArguments g).run ⟨offset + name.length, '(' :: args ++ ';' :: rest⟩ =
      some (given, ⟨offset + name.length + ('(' :: args).length, ';' :: rest⟩)) :
    (place g context).run start =
      some (⟨.call, offset, name ++ '(' :: args, [callee, given]⟩,
        ⟨offset + (name ++ '(' :: args).length, ';' :: rest⟩) := by
  subst hstart
  have semicolon : ';' ∈ closers := by decide
  have ends : Ends (';' :: rest) := ends_cons semicolon rest
  obtain ⟨count, length⟩ : ∃ count,
      ((name ++ '(' :: args) ++ ';' :: rest).length = count + 1 + steps :=
    ⟨name.length - steps + args.length + 1 + rest.length, by simp; omega⟩
  have whole : offset + name.length + ('(' :: args).length - offset =
      (name ++ '(' :: args).length := by
    rw [List.length_append]
    omega
  refine place_suffixed offset token ends first ?_
  rw [length, called]
  refine (suffixes_next (suffix_call g context _ callee arguments)).trans ?_
  rw [(ends.closing _).suffixes g context true]
  simp only [whole, List.take_left]
  rw [List.length_append, ← Nat.add_assoc]

private theorem endsWord_call (rest : List Char) : EndsWord ('(' :: rest) :=
  endsWord_cons (by decide) (by decide) rest

variable {g : Grammar} (context : Context) {c : Char} {name args rest : List Char} {given : Tree}

theorem place_nameCall (offset : Nat) (wordStart : isWordStart c = true)
    (parts : ∀ d ∈ name, isWordPart d = true) (free : String.ofList (c :: name) ∉ operandWords)
    (arguments : (callArguments g).run
      ⟨offset + (c :: name).length, '(' :: args ++ ';' :: rest⟩ =
        some (given, ⟨offset + (c :: name).length + ('(' :: args).length, ';' :: rest⟩)) :
    (place g context).run ⟨offset, (c :: name ++ '(' :: args) ++ ';' :: rest⟩ =
      some (⟨.call, offset, c :: name ++ '(' :: args,
          [⟨.identifier, offset, c :: name, []⟩, given]⟩,
        ⟨offset + (c :: name ++ '(' :: args).length, ';' :: rest⟩) := by
  have opened : StartsToken ('(' :: (args ++ ';' :: rest)) := ⟨'(', _, rfl, by decide, by decide⟩
  have base := bareOperand_name g context
    ⟨offset, (c :: name ++ '(' :: args) ++ ';' :: rest⟩ wordStart parts free
    (endsWord_call (args ++ ';' :: rest)) offset (arrowless_token _ opened (by decide))
  have text : (c :: name ++ '(' :: args) ++ ';' :: rest =
      c :: name ++ ('(' :: (args ++ ';' :: rest)) := List.append_assoc ..
  refine place_call offset rfl (startsToken_word _ wordStart) ?_ (Nat.zero_le _) (fun _ => rfl)
    arguments
  rw [text] at base ⊢
  exact base

theorem place_propertyCall {property : List Char} (offset : Nat)
    (wordStart : isWordStart c = true) (parts : ∀ d ∈ name, isWordPart d = true)
    (free : String.ofList (c :: name) ∉ operandWords) (word : IsWord property)
    (arguments : (callArguments g).run
      ⟨offset + (c :: name ++ '.' :: property).length, '(' :: args ++ ';' :: rest⟩ =
        some (given, ⟨offset + (c :: name ++ '.' :: property).length + ('(' :: args).length,
          ';' :: rest⟩)) :
    (place g context).run ⟨offset, ((c :: name ++ '.' :: property) ++ '(' :: args) ++ ';' :: rest⟩ =
      some (⟨.call, offset, (c :: name ++ '.' :: property) ++ '(' :: args,
          [⟨.property, offset, c :: name ++ '.' :: property,
            [⟨.identifier, offset, c :: name, []⟩,
              ⟨.name, offset + (c :: name).length + 1, property, []⟩]⟩, given]⟩,
        ⟨offset + ((c :: name ++ '.' :: property) ++ '(' :: args).length, ';' :: rest⟩) := by
  have text : ((c :: name ++ '.' :: property) ++ '(' :: args) ++ ';' :: rest =
      c :: name ++ '.' :: (property ++ ('(' :: (args ++ ';' :: rest))) := by simp
  have ends : EndsWord ('.' :: (property ++ ('(' :: (args ++ ';' :: rest)))) :=
    endsWord_cons (by decide) (by decide) _
  have opened : StartsToken ('.' :: (property ++ ('(' :: (args ++ ';' :: rest)))) :=
    ⟨'.', _, rfl, by decide, by decide⟩
  generalize hstart :
    Cursor.mk offset (((c :: name ++ '.' :: property) ++ '(' :: args) ++ ';' :: rest) = start
  have base := bareOperand_name g context start wordStart parts free ends offset
    (arrowless_token _ opened (by decide))
  have length : offset + (c :: name).length + 1 + property.length =
      offset + (c :: name ++ '.' :: property).length := by
    simp only [List.length_append, List.length_cons]
    omega
  have source : start.rest.take (offset + (c :: name ++ '.' :: property).length - start.offset) =
      c :: name ++ '.' :: property := by
    rw [← hstart, Nat.add_sub_cancel_left, List.append_assoc, List.take_left]
  have behind := suffix_property g context true start ⟨.identifier, offset, c :: name, []⟩ word
    (endsWord_call (args ++ ';' :: rest)) (offset + (c :: name).length)
  have position : start.offset = offset := by rw [← hstart]
  rw [length, source, position] at behind
  have few : 1 ≤ (c :: name ++ '.' :: property).length := by
    rw [List.length_append, List.length_cons]
    omega
  rw [← text, hstart] at base
  exact place_call offset hstart.symm (startsToken_word _ wordStart) base few
    (fun _ => suffixes_next behind) arguments

/-! ## Statements -/

/-- An expression up to its semicolon is a statement. -/
theorem expressionStatement_reads {level : Nat} {text rest : List Char} {tree : Tree}
    (offset : Nat) (token : StartsToken (text ++ ';' :: rest))
    (h : ((grammar level).expression Context.last).run ⟨offset, text ++ ';' :: rest⟩ =
      some (tree, ⟨offset + text.length, ';' :: rest⟩)) :
    (expressionStatement (grammar level)).run ⟨offset, text ++ ';' :: rest⟩ =
      some (⟨.expressionStatement, offset, text ++ [';'], [tree]⟩,
        ⟨offset + text.length + 1, rest⟩) := by
  have semicolon : ';' ∈ closers := by decide
  have closing : Closing ⟨offset + text.length, ';' :: rest⟩ := (ends_cons semicolon rest).closing _
  have solid : StartsToken (';' :: rest) := startsToken_closer rest semicolon
  have single : (expressions (grammar level) Context.last).run ⟨offset, text ++ ';' :: rest⟩ =
      some (tree, ⟨offset + text.length, ';' :: rest⟩) := by
    have comma : (symbol ",").run ⟨offset + text.length, ';' :: rest⟩ = none :=
      symbol_stuck (by rw [skip_token _ solid]; rfl) rfl (by decide)
    have items : (separated ((grammar level).expression Context.last) ",").run
        ⟨offset, text ++ ';' :: rest⟩ = some ([tree], ⟨offset + text.length, ';' :: rest⟩) := by
      unfold separated
      rw [run_then h, run_then (many_stuck (run_stuck _ comma))]
      rfl
    unfold expressions
    rw [run_then (run_trivia _), skip_token offset token, run_then (run_get _), run_then items]
    rfl
  have last : (statementEnd true).run ⟨offset + text.length, ';' :: rest⟩ =
      some ((), ⟨offset + text.length + 1, rest⟩) := by
    have unended : impliedEnd? true ((';' :: rest).length + 1) ⟨offset + text.length, ';' :: rest⟩ =
        none := impliedEnd?_token _ (by decide) (by decide) (by decide)
    unfold statementEnd
    rw [run_then (run_get _), unended]
    exact symbol_next _ solid rfl
  unfold expressionStatement
  rw [run_then (run_trivia _), skip_token offset token, run_then (run_get _), run_then single,
    run_then last]
  change some (Tree.mk _ _ (List.take _ _) _, _) = _
  have length : offset + text.length + 1 - offset = (text ++ [';']).length := by
    rw [List.length_append, List.length_singleton]
    omega
  have whole : text ++ ';' :: rest = (text ++ [';']) ++ rest := by simp
  simp only [length, whole, List.take_left]

def statementWords : List String :=
  ["var", "const", "let", "if", "switch", "for", "while", "do", "try", "with", "break", "continue",
    "debugger", "return", "throw", "import", "export", "function", "class", "async", "abstract",
    "enum", "interface", "type", "namespace", "module", "declare"]

theorem wordStatement_plain {g : Grammar} {name : String} (free : name ∉ statementWords) :
    wordStatement g name = (labelled g <|> expressionStatement g) := by
  unfold wordStatement
  -- Only the words themselves have branches of their own.
  split <;> first | exact absurd (by decide) free | rfl

/-- A statement that starts with a name and goes on as an operand does is an expression. -/
theorem readStatement_name {g : Grammar} {c d : Char} {name rest : List Char} (offset : Nat)
    (start : isWordStart c = true) (parts : ∀ d ∈ name, isWordPart d = true)
    (free : String.ofList (c :: name) ∉ statementWords) (goes : d = '(' ∨ d = '.') :
    (readStatement g).run ⟨offset, c :: name ++ d :: rest⟩ =
      (expressionStatement g).run ⟨offset, c :: name ++ d :: rest⟩ := by
  have other : ∀ mark ∈ punctuation, c ≠ mark := fun _ mem => ne_of_isWordStart start mem
  have token : StartsToken (c :: name ++ d :: rest) := startsToken_word _ start
  obtain ⟨ends, solid, colon⟩ : EndsWord (d :: rest) ∧ StartsToken (d :: rest) ∧ ':' ≠ d := by
    rcases goes with rfl | rfl <;>
      exact ⟨endsWord_cons (by decide) (by decide) rest, ⟨_, rest, rfl, by decide, by decide⟩,
        by decide⟩
  have unlabelled : (labelled g).run ⟨offset, c :: name ++ d :: rest⟩ = none := by
    have stuck : (symbol ":").run ⟨offset + (c :: name).length, d :: rest⟩ = none :=
      symbol_stuck (by rw [skip_token _ solid]; rfl) rfl colon
    unfold labelled
    refine spanned_stuck ?_
    rw [skip_token offset token, run_then (word_reads offset start parts ends)]
    exact run_stuck _ stuck
  have unmarked : (many markup).run ⟨offset, c :: name ++ d :: rest⟩ =
      some ([], ⟨offset, c :: name ++ d :: rest⟩) :=
    many_stuck (markup_stuck (by
      rw [skip_token offset token]
      exact markup?_none _ (other '<' (by decide)) (other '-' (by decide))))
  unfold readStatement
  rw [run_then unmarked, run_then (run_look _), skip_token offset token]
  split
  · next heq => cases heq
  · next heq => exact absurd (List.cons.inj heq).1 (other ';' (by decide))
  · next heq => exact absurd (List.cons.inj heq).1 (other '\x7b' (by decide))
  · next heq => exact absurd (List.cons.inj heq).1 (other '@' (by decide))
  · next heq =>
    obtain ⟨rfl, rfl⟩ := List.cons.inj heq
    rw [start, Bool.true_or, if_pos rfl, run_then (peekWord_reads offset start parts ends),
      wordStatement_plain free, run_second _ unlabelled]

/-- An operand that starts with a name and goes on behind it is a statement up to its
semicolon. -/
theorem statement_reads {level : Nat} {c d : Char} {name tail text rest : List Char} {tree : Tree}
    (offset : Nat) (h : text = c :: name ++ d :: tail) (start : isWordStart c = true)
    (parts : ∀ d ∈ name, isWordPart d = true)
    (free : String.ofList (c :: name) ∉ statementWords ++ prefixWords) (goes : d = '(' ∨ d = '.')
    (placed : (place (grammar level) Context.last).run ⟨offset, text ++ ';' :: rest⟩ =
      some (tree, ⟨offset + text.length, ';' :: rest⟩)) :
    (grammar (level + 2)).statement.run ⟨offset, text ++ ';' :: rest⟩ =
      some (⟨.expressionStatement, offset, text ++ [';'], [tree]⟩,
        ⟨offset + text.length + 1, rest⟩) := by
  have behind : EndsWord (d :: (tail ++ ';' :: rest)) := by
    rcases goes with rfl | rfl <;> exact endsWord_cons (by decide) (by decide) _
  have whole : text ++ ';' :: rest = c :: name ++ d :: (tail ++ ';' :: rest) := by
    rw [h, List.append_assoc]
    rfl
  have token : StartsToken (text ++ ';' :: rest) := whole ▸ startsToken_word _ start
  have unmarked : markup? (text ++ ';' :: rest) = none := by
    rw [whole]
    exact markup?_none _ (ne_of_isWordStart start (by decide)) (ne_of_isWordStart start (by decide))
  have plain : StartsPlain (text ++ ';' :: rest) := by
    rw [whole]
    exact startsPlain_word start parts behind fun mem => free (List.mem_append_right _ mem)
  have ends : Ends (';' :: rest) := ends_cons (by decide) rest
  have read := expression_reads offset blanks_nil token unmarked ends
    (operand_reads offset plain placed)
  change (readStatement (grammar (level + 1))).run _ = _
  rw [whole, readStatement_name offset start parts (fun mem => free (List.mem_append_left _ mem))
    goes, ← whole]
  exact expressionStatement_reads offset token read

end BlockLoom.Script
