import BlockLoom.Proofs.Script.Operand

/-!
Arrays and objects. Their elements are read in order, each up to its comma or the
closing bracket; a member of an object yields its key and the source of its value.
-/

namespace BlockLoom.Script

open Scan

variable {α ι : Type}

/-! ## Elements up to a bracket -/

theorem elements_closed {follows : List Char → Prop} {scan : Scan α} (closing : String)
    {text : ι → List Char} {yields : ι → α → Prop} {blanks rest : List Char} {c : Char}
    (bracket : closing.toList = [c]) (closer : c ∈ closers) (notComma : c ≠ ',')
    (hb : Blanks blanks) (item : ι) (items : List ι)
    (reads : ∀ other ∈ item :: items, Reads follows scan (text other) (yields other))
    (comma : ∀ other ∈ items, ∀ rest, follows rest → follows (',' :: (text other ++ rest)))
    (closes : follows (blanks ++ c :: rest)) (offset : Nat) :
    ∃ values,
      (elements scan closing).run ⟨offset, text item ++
          ((items.flatMap fun item => ',' :: text item) ++ (blanks ++ c :: rest))⟩ =
        some (values, ⟨offset + (text item ++
          ((items.flatMap fun item => ',' :: text item) ++ (blanks ++ [c]))).length, rest⟩) ∧
      List.Forall₂ yields (item :: items) values := by
  have token := startsToken_closer rest closer
  have stuck (offset : Nat) : (symbol ",").run ⟨offset, blanks ++ c :: rest⟩ = none :=
    symbol_stuck (c := c) (by rw [skip_blanks offset hb token]; rfl) rfl notComma.symm
  obtain ⟨values, run, all⟩ := elements_reads item items reads comma closes offset
    (.stop (run_stuck _ (stuck _))) (Nat.zero_le _) (symbol_reads _ hb token bracket)
  refine ⟨values, ?_, all⟩
  rw [run]
  simp [Nat.add_assoc]

theorem elements_trailing {follows : List Char → Prop} {scan : Scan α} (closing : String)
    {text : ι → List Char} {yields : ι → α → Prop} {blanks rest : List Char} {c : Char}
    (bracket : closing.toList = [c]) (closer : c ∈ closers) (notComma : c ≠ ',')
    (hb : Blanks blanks) (item : ι) (items : List ι)
    (reads : ∀ other ∈ item :: items, Reads follows scan (text other) (yields other))
    (comma : ∀ other ∈ items, ∀ rest, follows rest → follows (',' :: (text other ++ rest)))
    (closes : follows (',' :: (blanks ++ c :: rest)))
    (empty : ∀ offset, scan.run ⟨offset, blanks ++ c :: rest⟩ = none) (offset : Nat) :
    ∃ values,
      (elements scan closing).run ⟨offset, text item ++
          ((items.flatMap fun item => ',' :: text item) ++ (',' :: (blanks ++ c :: rest)))⟩ =
        some (values, ⟨offset + (text item ++
          ((items.flatMap fun item => ',' :: text item) ++ (',' :: (blanks ++ [c])))).length,
            rest⟩) ∧
      List.Forall₂ yields (item :: items) values := by
  have token := startsToken_closer rest closer
  have stuck (offset : Nat) : (symbol ",").run ⟨offset, blanks ++ c :: rest⟩ = none :=
    symbol_stuck (c := c) (by rw [skip_blanks offset hb token]; rfl) rfl notComma.symm
  have passed (offset : Nat) : (symbol ",").run ⟨offset, ',' :: (blanks ++ c :: rest)⟩ =
      some ((), ⟨offset + 1, blanks ++ c :: rest⟩) :=
    symbol_next offset (startsToken_closer _ (by decide)) rfl
  obtain ⟨values, run, all⟩ := elements_reads item items reads comma closes offset
    (.more ((run_then (passed _)).trans (optional?_stuck (empty _))) (.stop (run_stuck _ (stuck _))))
    (by simp) (symbol_reads _ hb token bracket)
  refine ⟨values, ?_, all⟩
  rw [run]
  simp only [List.filterMap_cons, id_eq, List.filterMap_nil, List.append_nil, List.length_append,
    List.length_cons, List.length_nil]
  congr 3
  omega

/-! ## Where nothing can be read -/

/-- A text with which no expression starts. -/
structure Barren (text : List Char) : Prop where
  opens : ∃ c rest, text = c :: rest ∧ OpensPlain c ∧ c ≠ '[' ∧ c ≠ '\x7b'
  bare : ∀ (g : Grammar) (context : Context) (start : Cursor) (offset : Nat),
    (bareOperand g context start).run ⟨offset, text⟩ = none

namespace Barren

variable {text : List Char}

theorem token (h : Barren text) : StartsToken text := by
  obtain ⟨c, rest, rfl, opens, -, -⟩ := h.opens
  exact opens.token rest

theorem plain (h : Barren text) : StartsPlain text := by
  obtain ⟨c, rest, rfl, opens, -, -⟩ := h.opens
  exact opens.plain rest

theorem markup (h : Barren text) (offset : Nat) :
    (many Scan.markup).run ⟨offset, text⟩ = some ([], ⟨offset, text⟩) := by
  refine many_stuck (markup_stuck ?_)
  rw [skip_token offset h.token]
  obtain ⟨c, rest, rfl, opens, -, -⟩ := h.opens
  exact opens.unmarked rest

theorem place (g : Grammar) (context : Context) (h : Barren text) (offset : Nat) :
    (Script.place g context).run ⟨offset, text⟩ = none := by
  have token := h.token
  unfold Script.place
  rw [run_then (run_trivia _), skip_token offset token, run_then (run_get _),
    run_second _ (run_stuck _ (h.bare g context _ offset))]
  refine run_stuck _ ?_
  obtain ⟨c, rest, rfl, -, bracket, brace⟩ := h.opens
  unfold destructuring objectPattern arrayPattern
  rw [run_second]
  · refine spanned_stuck (run_stuck _ ?_)
    rw [skip_token offset token]
    exact symbol_stuck (by rw [skip_token offset token]; rfl) rfl bracket.symm
  · refine spanned_stuck (run_stuck _ ?_)
    rw [skip_token offset token]
    exact symbol_stuck (by rw [skip_token offset token]; rfl) rfl brace.symm

theorem operand (g : Grammar) (context : Context) (h : Barren text) (offset : Nat) :
    (Script.operand g context).run ⟨offset, text⟩ = none := by
  have plain := h.plain
  unfold Script.operand
  refine (run_then (signs_none plain offset)).trans ?_
  rw [run_then (run_trivia _), skip_token offset plain.token, run_then (run_get _),
    run_then (run_look _), skip_token offset plain.token]
  split
  · next heq =>
    obtain rfl : text = _ := heq
    exact absurd rfl plain.angle
  · rw [run_then (run_peekWord _), skip_token offset plain.token]
    simp only [beq_iff_eq, plain.yields, if_false]
    exact run_stuck _ (h.place g context offset)

theorem expression (level : Nat) (context : Context) (h : Barren text) (offset : Nat) :
    ((grammar level).expression context).run ⟨offset, text⟩ = none := by
  match level with
  | 0 => rfl
  | level + 1 =>
    change (readExpression (grammar level) context).run _ = none
    unfold readExpression
    rw [run_then (h.markup offset), run_then (run_trivia _), skip_token offset h.token,
      run_then (run_get _)]
    exact run_stuck _ (h.operand (grammar level) context offset)

/-- No statement starts where no expression does, the empty one and decorators aside. -/
theorem statement (level : Nat) (h : Barren text) (empty : text.head? ≠ some ';')
    (decorated : text.head? ≠ some '@') (offset : Nat) :
    (grammar level).statement.run ⟨offset, text⟩ = none := by
  match level with
  | 0 => rfl
  | level + 1 =>
    have token := h.token
    have nothing : (expressionStatement (grammar level)).run ⟨offset, text⟩ = none := by
      unfold expressionStatement expressions separated
      rw [run_then (run_trivia _), skip_token offset token, run_then (run_get _)]
      refine run_stuck _ ?_
      rw [run_then (run_trivia _), skip_token offset token, run_then (run_get _)]
      exact run_stuck _ (run_stuck _ (h.expression level Context.last offset))
    change (readStatement (grammar level)).run _ = none
    unfold readStatement
    rw [run_then (h.markup offset), run_then (run_look _), skip_token offset token]
    obtain ⟨c, rest, rfl, opens, -, brace⟩ := h.opens
    split
    · rfl
    · next heq => exact absurd (congrArg List.head? heq) empty
    · next heq => exact absurd (List.cons.inj heq).1 brace
    · next heq => exact absurd (congrArg List.head? heq) decorated
    · next heq =>
      obtain ⟨rfl, rfl⟩ := List.cons.inj heq
      rw [opens.start, wordEscape?_of_ne _ (opens.ne (by decide))]
      exact nothing

end Barren

namespace Closing

variable {here : Cursor}

/-- No expression starts with the end of one. -/
theorem barren {c : Char} (closer : c ∈ closers) (rest : List Char) : Barren (c :: rest) := by
  have token := startsToken_closer rest closer
  have opens : ∀ c ∈ closers, isBlank c = false ∧ isWordStart c = false ∧
      c ∉ ['/', '<', '!', '~', '+', '-', '\\'] ∧ c ≠ '[' ∧ c ≠ '\x7b' :=
    forall_mem_of_all (by decide)
  obtain ⟨blank, start, other, bracket, brace⟩ := opens c closer
  refine ⟨⟨c, rest, rfl, ⟨blank, start, other⟩, bracket, brace⟩, fun g context begin offset => ?_⟩
  have noWord : peekWord.run ⟨offset, c :: rest⟩ = some ("", ⟨offset, c :: rest⟩) := by
    have plain : OpensPlain c := ⟨blank, start, other⟩
    rw [run_peekWord, skip_token offset token, wordLength_stuck rest start (plain.ne (by decide))]
    rfl
  unfold bareOperand
  rw [run_then (run_look _), skip_token offset token]
  simp only [closers, List.mem_cons, List.not_mem_nil, or_false] at closer
  rcases closer with rfl | rfl | rfl | rfl | rfl <;> exact run_then noWord

theorem markup (h : Closing here) : (many Scan.markup).run here = some ([], here) := by
  obtain ⟨c, rest, hrest, closer⟩ := h
  have plain : ∀ c ∈ closers, c ≠ '<' ∧ c ≠ '-' := forall_mem_of_all (by decide)
  refine many_stuck (markup_stuck ?_)
  rw [hrest, markup?_none rest (plain c closer).1 (plain c closer).2]

theorem expression (level : Nat) (context : Context) (h : Closing here) :
    ((grammar level).expression context).run here = none := by
  match level with
  | 0 => rfl
  | level + 1 =>
    have unmarked := h.markup
    obtain ⟨c, rest, hrest, closer⟩ := h
    have next : here.skip = ⟨here.skip.offset, c :: rest⟩ := by rw [← hrest]
    change (readExpression (grammar level) context).run here = none
    unfold readExpression
    rw [run_then unmarked, run_then (run_trivia here), run_then (run_get _), next]
    exact run_stuck _ ((barren closer rest).operand (grammar level) context _)

theorem memberKey (g : Grammar) (h : Closing here) : (Script.memberKey g).run here = none := by
  have next := h.skip
  obtain ⟨c, rest, hrest, closer⟩ := h
  unfold Script.memberKey
  rw [run_then (run_look here), hrest]
  simp only [closers, List.mem_cons, List.not_mem_nil, or_false] at closer
  rcases closer with rfl | rfl | rfl | rfl | rfl <;> exact leaf_stuck (run_stuck _ next.skip.word)

theorem objectMethod (g : Grammar) (h : Closing here) :
    (Script.objectMethod g).run here = none := by
  have modifier (names : List String) : (optional? (modifierIn names)).run here.skip =
      some (none, here.skip) := by
    refine optional?_stuck ?_
    unfold modifierIn
    exact run_stuck _ h.skip.word
  have star : (accepts (Scan.symbol "*")).run here.skip = some (false, here.skip) :=
    accepts_stuck (h.skip.symbol (by decide) (by decide))
  unfold Script.objectMethod
  rw [run_then (run_trivia here), run_then (run_get _), run_then (modifier _),
    run_then (modifier _), run_then (modifier _), run_then (modifier _), run_then (modifier _),
    run_then (modifier _)]
  simp only [Option.isNone_none, if_true]
  rw [run_then star]
  exact run_stuck _ (h.skip.memberKey g)

theorem objectMember (g : Grammar) (h : Closing here) :
    (Script.objectMember g).run here = none := by
  have next := h.skip
  obtain ⟨c, rest, hrest, closer⟩ := h
  unfold Script.objectMember
  rw [run_then (run_look here), hrest]
  have failing : ((spanned .pair do
        let key ← Script.memberKey g
        Scan.symbol ":"
        return [key, ← g.expression Context.inner])
      <|> Script.objectMethod g
      <|> leaf .shorthand (do let _ ← Scan.word)).run here.skip = none := by
    rw [run_second _ (spanned_stuck (run_stuck _ (next.skip.memberKey g))),
      run_second _ (next.objectMethod g)]
    exact leaf_stuck (run_stuck _ next.skip.word)
  simp only [closers, List.mem_cons, List.not_mem_nil, or_false] at closer
  rcases closer with rfl | rfl | rfl | rfl | rfl <;> exact failing

theorem spread (g : Grammar) (h : Closing here) : (Script.spread g).run here = none := by
  unfold Script.spread
  exact spanned_stuck (run_stuck _ (h.skip.symbol (by decide) (by decide)))

end Closing

/-! ## Members of objects -/

structure IsKey (text : List Char) (key : String) : Prop where
  token : ∀ rest, StartsToken (text ++ rest)
  unmarked : ∀ rest, markup? (text ++ rest) = none
  dots : ∀ rest, (text ++ rest).head? ≠ some '.'
  reads : ∀ (g : Grammar) (offset : Nat) (rest : List Char), ∃ tree,
    (memberKey g).run ⟨offset, text ++ ':' :: rest⟩ =
      some (tree, ⟨offset + text.length, ':' :: rest⟩) ∧
    keyName? tree = some key ∧ tree.isBroken = false

namespace StringLiteral

variable (literal : StringLiteral)

theorem opensPlain : OpensPlain literal.quote := by
  have opens : ∀ quote ∈ quotes, OpensPlain quote :=
    forall_quotes ⟨by decide, by decide, by decide⟩ ⟨by decide, by decide, by decide⟩
  exact opens _ literal.quoted

theorem plain (rest : List Char) : StartsPlain (literal.text ++ rest) :=
  literal.opensPlain.plain _

theorem unmarked (rest : List Char) : markup? (literal.text ++ rest) = none :=
  literal.opensPlain.unmarked _

theorem dots (rest : List Char) : (literal.text ++ rest).head? ≠ some '.' := by
  have other : ∀ quote ∈ quotes, quote ≠ '.' := forall_quotes (by decide) (by decide)
  simpa [text] using other _ literal.quoted

/-- A literal is read as a key, whatever follows. -/
theorem memberKey_scanned (g : Grammar) (offset : Nat) (rest : List Char) :
    (memberKey g).run ⟨offset, literal.text ++ rest⟩ =
      some (⟨.string literal.read, offset, literal.text, []⟩,
        ⟨offset + literal.text.length, rest⟩) := by
  unfold memberKey
  rw [run_then (run_look _), skip_token offset (literal.token rest)]
  have read := literal.scanned offset rest
  rw [text_append] at read ⊢
  simp only [literal.isQuote, if_true]
  exact read

end StringLiteral

theorem isKey_quote (key : String) : IsKey (Json.quote key).toList key := by
  obtain ⟨literal, text, read⟩ := exists_literal key
  rw [← text]
  exact ⟨literal.token, literal.unmarked, literal.dots, fun g offset rest =>
    ⟨_, literal.memberKey_scanned g offset (':' :: rest), read, rfl⟩⟩

/-- A word is the key of a member, blanks before it aside. -/
theorem memberKey_word (g : Grammar) {blanks : List Char} (hb : Blanks blanks) {c : Char}
    {name rest : List Char} (start : isWordStart c = true) (parts : ∀ d ∈ name, isWordPart d = true)
    (ends : EndsWord rest) (offset : Nat) :
    (memberKey g).run ⟨offset, blanks ++ (c :: name ++ rest)⟩ =
      some (⟨.name, offset + blanks.length, c :: name, []⟩,
        ⟨offset + blanks.length + (c :: name).length, rest⟩) := by
  have other : ∀ mark ∈ punctuation, (c == mark) = false := fun _ mem =>
    beq_eq_false_iff_ne.mpr (ne_of_isWordStart start mem)
  have digit : c.isDigit = false := by
    simp only [isWordStart, Bool.and_eq_true, Bool.not_eq_true'] at start
    exact start.2
  have token : StartsToken (c :: name ++ rest) := startsToken_word _ start
  have read : (leaf .name (do let _ ← word)).run ⟨offset + blanks.length, c :: name ++ rest⟩ =
      some (⟨.name, offset + blanks.length, c :: name, []⟩,
        ⟨offset + blanks.length + (c :: name).length, rest⟩) :=
    leaf_reads _ token (run_then (word_reads _ start parts ends))
  unfold memberKey
  rw [run_then (run_look _), skip_blanks offset hb token]
  simp only [List.cons_append, other '"' (by decide), other '\'' (by decide),
    other '[' (by decide), other '#' (by decide), other '.' (by decide), digit, Bool.false_and,
    Bool.or_self, Bool.false_eq_true, if_false]
  exact read

theorem isKey_name {key : String} (h : isName key = true) : IsKey key.toList key := by
  obtain ⟨c, name, hkey, start, parts⟩ := isWord_of_isName h
  have other : ∀ mark ∈ punctuation, c ≠ mark := fun _ mem => ne_of_isWordStart start mem
  rw [hkey]
  refine ⟨fun rest => startsToken_word _ start, fun rest => ?_, fun rest => ?_, ?_⟩
  · exact markup?_none _ (other _ (by decide)) (other _ (by decide))
  · simpa using other '.' (by decide)
  · intro g offset rest
    have ends : EndsWord (':' :: rest) := endsWord_cons (by decide) (by decide) rest
    have kind : keyName? ⟨.name, offset, c :: name, []⟩ = some key := by
      rw [keyName?, Tree.source, ← hkey, String.ofList_toList]
    exact ⟨_, memberKey_word g blanks_nil start parts ends offset, kind, rfl⟩

structure IsSource (code : List Char) (tree : Tree) : Prop where
  text : tree.text = code
  value : tree.kind ≠ .function
  fits : tree.isBroken = false

structure AreMembers (entries : List Entry) (members : List Tree) : Prop where
  entries : members.map Entry.ofMember = entries
  fits : Tree.anyBroken members = false

theorem areMembers_nil : AreMembers [] [] := ⟨rfl, rfl⟩

theorem anyBroken_append (trees others : List Tree) :
    Tree.anyBroken (trees ++ others) = (Tree.anyBroken trees || Tree.anyBroken others) := by
  induction trees with
  | nil => rfl
  | cons tree trees ih => rw [List.cons_append, Tree.anyBroken, Tree.anyBroken, ih, Bool.or_assoc]

theorem anyBroken_of_forall₂ {items : List ι} {trees : List Tree}
    (h : List.Forall₂ (fun _ tree => tree.isBroken = false) items trees) :
    Tree.anyBroken trees = false := by
  induction h with
  | nil => rfl
  | cons first _ ih =>
    rw [Tree.anyBroken, first, ih]
    rfl

theorem AreMembers.append {entries others : List Entry} {members later : List Tree}
    (h : AreMembers entries members) (h' : AreMembers others later) :
    AreMembers (entries ++ others) (members ++ later) :=
  ⟨by rw [List.map_append, h.entries, h'.entries], by rw [anyBroken_append, h.fits, h'.fits]; rfl⟩

/-- Members that were read one after the other. -/
theorem areMembers_flatten {entry : ι → Entry} {items : List ι} {values : List (List Tree)}
    (h : List.Forall₂ (fun item => AreMembers [entry item]) items values) :
    AreMembers (items.map entry) values.flatten := by
  induction h with
  | nil => exact areMembers_nil
  | cons first _ ih => exact first.append ih

structure IsPair (key : String) (yields : Tree → Prop) (member : Tree) : Prop where
  kind : member.kind = .pair
  parts : ∃ name value, member.children = [name, value] ∧ keyName? name = some key ∧
    name.isBroken = false ∧ yields value

theorem IsPair.mono {key : String} {yields holds : Tree → Prop} {member : Tree}
    (pair : IsPair key yields member) (weaker : ∀ value, yields value → holds value) :
    IsPair key holds member := by
  obtain ⟨name, value, parts, named, whole, yielded⟩ := pair.parts
  exact ⟨pair.kind, name, value, parts, named, whole, weaker value yielded⟩

/-- Where a key and a value are read on either side of a colon, a member is read. It is a pair of
both, since a key neither opens a comment in markup syntax nor spreads anything. -/
theorem pair_scanned {g : Grammar} {blanks text value rest : List Char} {key tree : Tree}
    (hb : Blanks blanks) (token : ∀ rest, StartsToken (text ++ rest))
    (unmarked : ∀ rest, markup? (text ++ rest) = none)
    (dots : ∀ rest, (text ++ rest).head? ≠ some '.') (offset : Nat)
    (readKey : (memberKey g).run ⟨offset + blanks.length, text ++ ':' :: (value ++ rest)⟩ =
      some (key, ⟨offset + blanks.length + text.length, ':' :: (value ++ rest)⟩))
    (readValue : (g.expression Context.inner).run
        ⟨offset + blanks.length + text.length + 1, value ++ rest⟩ =
      some (tree, ⟨offset + blanks.length + text.length + 1 + value.length, rest⟩)) :
    (do
        let before ← many markup
        return before ++ [← objectMember g]).run
          ⟨offset, blanks ++ (text ++ ':' :: value) ++ rest⟩ =
      some ([⟨.pair, offset + blanks.length, text ++ ':' :: value, [key, tree]⟩],
        ⟨offset + (blanks ++ (text ++ ':' :: value)).length, rest⟩) := by
  have whole : StartsToken ((text ++ ':' :: value) ++ rest) := by
    rw [List.append_assoc]
    exact token _
  have plain : (many markup).run ⟨offset, blanks ++ ((text ++ ':' :: value) ++ rest)⟩ =
      some ([], ⟨offset, blanks ++ ((text ++ ':' :: value) ++ rest)⟩) := by
    refine many_stuck (markup_stuck ?_)
    rw [skip_blanks offset hb whole, List.append_assoc]
    exact unmarked _
  have colon : (symbol ":").run ⟨offset + blanks.length + text.length, ':' :: (value ++ rest)⟩ =
      some ((), ⟨offset + blanks.length + text.length + 1, value ++ rest⟩) :=
    symbol_next _ ⟨':', _, rfl, by decide, by decide⟩ rfl
  have pair : (spanned .pair (do
        let key ← memberKey g
        symbol ":"
        return [key, ← g.expression Context.inner])).run
          ⟨offset + blanks.length, (text ++ ':' :: value) ++ rest⟩ =
      some (⟨.pair, offset + blanks.length, text ++ ':' :: value, [key, tree]⟩,
        ⟨offset + blanks.length + (text ++ ':' :: value).length, rest⟩) := by
    refine spanned_reads _ whole ?_
    rw [List.append_assoc, List.cons_append]
    refine (run_then readKey).trans ((run_then colon).trans ((run_then readValue).trans ?_))
    simp [Nat.add_assoc, Nat.add_comm 1]
  have member : (objectMember g).run ⟨offset, blanks ++ ((text ++ ':' :: value) ++ rest)⟩ =
      some (⟨.pair, offset + blanks.length, text ++ ':' :: value, [key, tree]⟩,
        ⟨offset + blanks.length + (text ++ ':' :: value).length, rest⟩) := by
    unfold objectMember
    rw [run_then (run_look _), skip_blanks offset hb whole]
    split
    · next tail heq =>
      have opened : text ++ (':' :: value ++ rest) = '.' :: '.' :: '.' :: tail := by
        rw [← List.append_assoc]
        exact heq
      exact absurd (by rw [opened]; rfl) (dots (':' :: value ++ rest))
    · exact run_first _ pair
  rw [List.append_assoc, run_then plain, run_then member]
  simp [Nat.add_assoc]

/-- A key and its value with a colon between them are read as one member. -/
theorem pair_reads {follows : List Char → Prop} {g : Grammar} {blanks text value : List Char}
    {key : String} {yields : Tree → Prop} (hb : Blanks blanks) (hk : IsKey text key)
    (hv : Reads follows (g.expression Context.inner) value yields) :
    Reads follows (do
        let before ← many markup
        return before ++ [← objectMember g])
      (blanks ++ (text ++ ':' :: value))
      (fun members => ∃ member, members = [member] ∧ IsPair key yields member) := by
  intro offset rest followed
  obtain ⟨keyTree, readKey, name, whole⟩ := hk.reads g (offset + blanks.length) (value ++ rest)
  obtain ⟨tree, readValue, yielded⟩ :=
    hv (offset + blanks.length + text.length + 1) rest followed
  exact ⟨_, pair_scanned hb hk.token hk.unmarked hk.dots offset readKey readValue, _, rfl,
    rfl, _, _, rfl, name, whole, yielded⟩

/-- The entry of a member depends on its key and on what its value is. -/
theorem IsPair.areMembers {key : String} {yields : Tree → Prop} {member : Tree} {entry : Entry}
    (pair : IsPair key yields member) (fits : ∀ value, yields value → value.isBroken = false)
    (h : ∀ value, yields value → (if value.kind == .function then Entry.function key value.source
      else Entry.property key value.source) = entry) :
    AreMembers [entry] [member] := by
  obtain ⟨name, value, parts, named, whole, yielded⟩ := pair.parts
  refine ⟨?_, ?_⟩
  · simp [Entry.ofMember, pair.kind, parts, named, ← h value yielded]
  · obtain ⟨kind, start, text, children⟩ := member
    obtain rfl : kind = .pair := pair.kind
    obtain rfl : children = [name, value] := parts
    simp [Tree.anyBroken, Tree.isBroken, whole, fits value yielded]

/-- A key and a value that is no function make a property. -/
theorem IsPair.property {key : String} {code : List Char} {member : Tree}
    (pair : IsPair key (IsSource code) member) :
    AreMembers [.property key (String.ofList code)] [member] := by
  refine pair.areMembers (fun _ source => source.fits) fun value source => ?_
  rw [if_neg (by simpa using source.value), Tree.source, source.text]

/-! ## Arrays and objects -/

/-- Right before the closing bracket there are no elements. -/
theorem elements_empty {scan : Scan α} {closing : String} {c : Char}
    (bracket : closing.toList = [c]) (closer : c ∈ closers) (notComma : c ≠ ',') {rest : List Char}
    {offset : Nat} (empty : scan.run ⟨offset, c :: rest⟩ = none) :
    (elements scan closing).run ⟨offset, c :: rest⟩ = some ([], ⟨offset + 1, rest⟩) := by
  have token := startsToken_closer rest closer
  have stuck : (symbol ",").run ⟨offset, c :: rest⟩ = none :=
    symbol_stuck (by rw [skip_token offset token]; rfl) rfl notComma.symm
  unfold elements
  rw [run_then (optional?_stuck empty), run_then (many_stuck (run_stuck _ stuck)),
    run_then (symbol_next offset token bracket)]
  rfl

theorem array_empty (level : Nat) (offset : Nat) (rest : List Char) :
    (array (grammar level)).run ⟨offset, ['[', ']'] ++ rest⟩ =
      some (⟨.array, offset, ['[', ']'], []⟩, ⟨offset + ['[', ']'].length, rest⟩) := by
  have closer : ']' ∈ closers := by decide
  have closing : Closing ⟨offset + 1, ']' :: rest⟩ := (ends_cons closer rest).closing _
  have nothing : (spread (grammar level) <|> (grammar level).expression Context.inner).run
      ⟨offset + 1, ']' :: rest⟩ = none := by
    rw [run_second _ (closing.spread _), closing.expression]
  have bracket : "]".toList = [']'] := rfl
  have token : StartsToken (['[', ']'] ++ rest) := ⟨'[', _, rfl, by decide, by decide⟩
  have passed : (symbol "[").run ⟨offset, ['[', ']'] ++ rest⟩ =
      some ((), ⟨offset + 1, ']' :: rest⟩) := symbol_next offset token rfl
  exact spanned_reads offset token
    ((run_then passed).trans (elements_empty bracket closer (by decide) nothing))

theorem object_empty (g : Grammar) (offset : Nat) (rest : List Char) :
    (object g).run ⟨offset, ['\x7b', '\x7d'] ++ rest⟩ =
      some (⟨.object, offset, ['\x7b', '\x7d'], []⟩,
        ⟨offset + ['\x7b', '\x7d'].length, rest⟩) := by
  have closer : '\x7d' ∈ closers := by decide
  have closing : Closing ⟨offset + 1, '\x7d' :: rest⟩ := (ends_cons closer rest).closing _
  have nothing : (do
      let before ← many markup
      return before ++ [← objectMember g]).run ⟨offset + 1, '\x7d' :: rest⟩ = none := by
    rw [run_then closing.markup]
    exact run_stuck _ (closing.objectMember g)
  have bracket : "\x7d".toList = ['\x7d'] := rfl
  have token : StartsToken (['\x7b', '\x7d'] ++ rest) := ⟨'\x7b', _, rfl, by decide, by decide⟩
  have passed : (symbol "\x7b").run ⟨offset, ['\x7b', '\x7d'] ++ rest⟩ =
      some ((), ⟨offset + 1, '\x7d' :: rest⟩) := symbol_next offset token rfl
  exact spanned_reads offset token ((run_then passed).trans
    (run_then (elements_empty bracket closer (by decide) nothing)))

/-- Elements between brackets are read from bracket to bracket. -/
theorem bracketed_reads {follows : List Char → Prop} {kind : Kind} {scan : Scan Tree}
    {opening closing : String} {c d : Char} (opens : opening.toList = [c])
    (token : ∀ rest, StartsToken (c :: rest)) (bracket : closing.toList = [d])
    (closer : d ∈ closers) (notComma : d ≠ ',') (text : ι → List Char) {yields : ι → Tree → Prop}
    (item : ι) (items : List ι)
    (reads : ∀ other ∈ item :: items, Reads follows scan (text other) (yields other))
    (comma : ∀ other ∈ items, ∀ rest, follows rest → follows (',' :: (text other ++ rest)))
    (closes : ∀ rest, follows (d :: rest))
    {written : List Char}
    (h : written = c :: (text item ++ ((items.flatMap fun item => ',' :: text item) ++ [d])))
    (offset : Nat) (rest : List Char) :
    ∃ children, (spanned kind (do
          symbol opening
          elements scan closing)).run ⟨offset, written ++ rest⟩ =
        some (⟨kind, offset, written, children⟩, ⟨offset + written.length, rest⟩) ∧
      List.Forall₂ yields (item :: items) children := by
  obtain ⟨values, run, all⟩ := elements_closed closing bracket closer notComma blanks_nil
    item items reads comma (closes rest) (offset + 1)
  have shape : written ++ rest =
      c :: (text item ++ ((items.flatMap fun item => ',' :: text item) ++ d :: rest)) := by
    simp [h]
  refine ⟨values, spanned_reads offset (shape ▸ token _) ?_, all⟩
  rw [shape]
  refine (run_then (symbol_next _ (token _) opens)).trans (run.trans ?_)
  simp [h, Nat.add_assoc, Nat.add_comm 1]

/-- An array with elements is read from bracket to bracket. -/
theorem array_reads {follows : List Char → Prop} {g : Grammar} (text : ι → List Char)
    {yields : ι → Tree → Prop} (item : ι) (items : List ι)
    (reads : ∀ other ∈ item :: items,
      Reads follows (spread g <|> g.expression Context.inner) (text other) (yields other))
    (comma : ∀ other ∈ items, ∀ rest, follows rest → follows (',' :: (text other ++ rest)))
    (closes : ∀ rest, follows (']' :: rest))
    {written : List Char}
    (h : written =
      '[' :: (text item ++ ((items.flatMap fun item => ',' :: text item) ++ [']'])))
    (offset : Nat) (rest : List Char) :
    ∃ children, (array g).run ⟨offset, written ++ rest⟩ =
        some (⟨.array, offset, written, children⟩, ⟨offset + written.length, rest⟩) ∧
      List.Forall₂ yields (item :: items) children := by
  have opens : "[".toList = ['['] := rfl
  have bracket : "]".toList = [']'] := rfl
  exact bracketed_reads opens (fun rest => ⟨'[', rest, rfl, by decide, by decide⟩) bracket
    (by decide) (by decide) text item items reads comma closes h offset rest

/-- An object with members is read from brace to brace, if each of them is read before what stands
behind it. A comma may stand behind the last one. This is the lemma by which every written object is
read back. -/
theorem object_reads {follows : List Char → Prop} {g : Grammar} (text : ι → List Char)
    {yields : ι → List Tree → Prop} (item : ι) (items : List ι)
    (reads : ∀ other ∈ item :: items, Reads follows (do
        let before ← many markup
        return before ++ [← objectMember g]) (text other) (yields other))
    (comma : ∀ other ∈ items, ∀ rest, follows rest → follows (',' :: (text other ++ rest)))
    {blanks trailing : List Char} (hb : Blanks blanks) (ending : trailing = [','] ∨ trailing = [])
    (closes : ∀ rest, follows (trailing ++ (blanks ++ '\x7d' :: rest)))
    {written : List Char}
    (h : written = '\x7b' :: (text item ++ ((items.flatMap fun item => ',' :: text item) ++
      (trailing ++ (blanks ++ ['\x7d'])))))
    (offset : Nat) (rest : List Char) :
    ∃ values : List (List Tree), (object g).run ⟨offset, written ++ rest⟩ =
        some (⟨.object, offset, written, values.flatten⟩, ⟨offset + written.length, rest⟩) ∧
      List.Forall₂ yields (item :: items) values := by
  have bracket : "\x7d".toList = ['\x7d'] := rfl
  have closer : '\x7d' ∈ closers := by decide
  obtain ⟨values, run, all⟩ : ∃ values,
      (elements (do
          let before ← many markup
          return before ++ [← objectMember g]) "\x7d").run
        ⟨offset + 1, text item ++ ((items.flatMap fun item => ',' :: text item) ++
          (trailing ++ (blanks ++ '\x7d' :: rest)))⟩ =
      some (values, ⟨offset + 1 + (text item ++ ((items.flatMap fun item => ',' :: text item) ++
        (trailing ++ (blanks ++ ['\x7d'])))).length, rest⟩) ∧
      List.Forall₂ yields (item :: items) values := by
    rcases ending with rfl | rfl
    · refine elements_trailing "\x7d" bracket closer (by decide) hb item items reads comma
        (closes rest) ?_ _
      intro offset
      have closing : Closing ⟨offset, blanks ++ '\x7d' :: rest⟩ :=
        (ends_blanks hb closer rest).closing offset
      rw [run_then closing.markup]
      exact run_stuck _ (closing.objectMember g)
    · exact elements_closed "\x7d" bracket closer (by decide) hb item items reads comma (closes rest) _
  have shape : written ++ rest = '\x7b' :: (text item ++
      ((items.flatMap fun item => ',' :: text item) ++ (trailing ++ (blanks ++ '\x7d' :: rest)))) := by
    simp [h]
  have token : StartsToken (written ++ rest) := by
    rw [shape]
    exact ⟨'\x7b', _, rfl, by decide, by decide⟩
  refine ⟨values, spanned_reads offset token ?_, all⟩
  rw [shape]
  refine (run_then (symbol_next _ ⟨'\x7b', _, rfl, by decide, by decide⟩ rfl)).trans
    ((run_then run).trans ?_)
  simp [h, Nat.add_assoc, Nat.add_comm 1]

end BlockLoom.Script
