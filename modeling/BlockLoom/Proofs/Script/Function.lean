import BlockLoom.Proofs.Script.Path

/-!
Functions as members of an object: an arrow from a name to an expression, and methods and
getters that neither take parameters nor do anything.
-/

namespace BlockLoom.Script

open Scan

structure IsFunction (code : List Char) (tree : Tree) : Prop where
  text : tree.text = code
  kind : tree.kind = .function
  fits : tree.isBroken = false

/-! ## Arrows -/

private theorem arrow_symbol (offset : Nat) (rest : List Char) :
    (symbol "=>").run ⟨offset, '=' :: '>' :: rest⟩ = some ((), ⟨offset + 2, rest⟩) := by
  have token : StartsToken ('=' :: '>' :: rest) := ⟨'=', _, rfl, by decide, by decide⟩
  have text : "=>".toList = ['=', '>'] := rfl
  have length : "=>".length = 2 := rfl
  unfold symbol
  rw [run_then (run_look _), skip_token offset token, text, length]
  simp [List.isPrefixOf, run_pass, Cursor.advance]

private theorem arrowBody_reads {g : Grammar} {context : Context} {c : Char}
    {tail rest : List Char} {body : Tree} {there : Cursor} (offset : Nat)
    (solid : isBlank c = false) (slash : c ≠ '/') (brace : c ≠ '\x7b')
    (h : (g.expression context).run ⟨offset + 3, c :: tail ++ rest⟩ = some (body, there)) :
    (arrowBody g context).run ⟨offset, '=' :: '>' :: ' ' :: (c :: tail ++ rest)⟩ =
      some (body, there) := by
  have token : StartsToken (c :: tail ++ rest) := ⟨c, _, rfl, solid, slash⟩
  have skipped : Cursor.skip ⟨offset + 2, ' ' :: (c :: tail ++ rest)⟩ =
      ⟨offset + 3, c :: tail ++ rest⟩ := skip_blanks (offset + 2) blanks_space token
  unfold arrowBody
  rw [run_then (arrow_symbol offset _), run_then (run_look _), skipped]
  split
  · next heq => exact absurd (List.cons.inj heq).1 brace
  · exact h

private theorem arrow_reads {g : Grammar} {context : Context} {start here there : Cursor}
    {given : List Tree} {body : Tree}
    (h : (arrowBody g context).run here = some (body, there)) :
    (arrow g context start (pure given)).run here =
      some (⟨.function, start.offset, start.rest.take (there.offset - start.offset),
        given ++ [body]⟩, there) := by
  have nothing : (pure given : Scan (List Tree)).run here = some (given, here) := rfl
  unfold arrow
  rw [run_then nothing, run_then h]
  rfl

/-- A name before an arrow is the parameter of a function. -/
private theorem bareOperand_arrow {g : Grammar} {context : Context} {c : Char}
    {name rest : List Char} {body : Tree} {there : Cursor} (start : Cursor) (offset : Nat)
    (wordStart : isWordStart c = true) (parts : ∀ d ∈ name, isWordPart d = true)
    (free : String.ofList (c :: name) ∉ operandWords ++ valueWords)
    (h : (arrowBody g context).run ⟨offset + (c :: name).length + 1, '=' :: '>' :: rest⟩ =
      some (body, there)) :
    (bareOperand g context start).run ⟨offset, c :: name ++ (' ' :: '=' :: '>' :: rest)⟩ =
      some (⟨.function, start.offset, start.rest.take (there.offset - start.offset),
        [⟨.identifier, offset, c :: name, []⟩, body]⟩, there) := by
  have behind : EndsWord (' ' :: '=' :: '>' :: rest) := endsWord_cons (by decide) (by decide) _
  have token : StartsToken ('=' :: '>' :: rest) := ⟨'=', _, rfl, by decide, by decide⟩
  have named := identifier_reads wordStart parts behind offset
  have skipped : Cursor.skip ⟨offset + (c :: name).length, ' ' :: '=' :: '>' :: rest⟩ =
      ⟨offset + (c :: name).length + 1, '=' :: '>' :: rest⟩ := skip_blanks _ blanks_space token
  have leads : (arrow g context start (pure [⟨.identifier, offset, c :: name, []⟩])).run
      ⟨offset + (c :: name).length + 1, '=' :: '>' :: rest⟩ = _ := arrow_reads h
  rw [bareOperand_word g context start wordStart parts behind offset]
  generalize String.ofList (c :: name) = text at free
  have other : valueWords.contains text = false := by
    rw [List.contains_eq_mem, decide_eq_false_iff_not]
    exact fun mem => free (List.mem_append_right _ mem)
  unfold wordOperand
  -- Only the words themselves have branches of their own.
  split <;> try exact absurd (by decide) free
  rw [other]
  simp only [Bool.false_eq_true, if_false]
  rw [run_then named, run_then (run_get _), run_then (run_look _), skipped]
  exact leads

/-- A name, an arrow and an expression are a function. The name is read as the only parameter, since
no other expression goes on with an arrow. -/
theorem readsTree_arrow {level : Nat} {name code : List Char} {yields : Tree → Prop}
    (word : IsWord name) (free : String.ofList name ∉ operandWords ++ valueWords)
    (body : ReadsTree level code yields) (fits : ∀ tree, yields tree → tree.isBroken = false)
    {d : Char} {tail : List Char} (opened : code = d :: tail) (solid : isBlank d = false)
    (slash : d ≠ '/') (brace : d ≠ '\x7b') :
    ReadsTree (level + 1) (name ++ (' ' :: '=' :: '>' :: ' ' :: code))
      (IsFunction (name ++ (' ' :: '=' :: '>' :: ' ' :: code))) := by
  obtain ⟨c, name, rfl, start, parts⟩ := word
  subst opened
  refine readsTree_operand (fun rest => startsToken_word _ start) (fun rest => markup?_none _
    (ne_of_isWordStart start (by decide)) (ne_of_isWordStart start (by decide)))
    fun offset rest ends => ?_
  have whole : c :: name ++ (' ' :: '=' :: '>' :: ' ' :: d :: tail) ++ rest =
      c :: name ++ (' ' :: '=' :: '>' :: ' ' :: (d :: tail ++ rest)) := List.append_assoc ..
  have length : offset + (c :: name).length + 1 + 3 + (d :: tail).length =
      offset + (c :: name ++ (' ' :: '=' :: '>' :: ' ' :: d :: tail)).length := by
    simp only [List.length_append, List.length_cons]
    omega
  obtain ⟨tree, read, yielded⟩ := body [] blanks_nil (offset + (c :: name).length + 1 + 3) rest ends
  have led := arrowBody_reads (offset + (c :: name).length + 1) solid slash brace read
  have base := bareOperand_arrow
    ⟨offset, c :: name ++ (' ' :: '=' :: '>' :: ' ' :: d :: tail) ++ rest⟩ offset start parts free led
  simp only [List.nil_append] at base
  rw [← whole, length, Nat.add_sub_cancel_left, List.take_left] at base
  have token : StartsToken (c :: name ++ (' ' :: '=' :: '>' :: ' ' :: d :: tail) ++ rest) :=
    startsToken_word _ start
  have plain : StartsPlain (c :: name ++ (' ' :: '=' :: '>' :: ' ' :: d :: tail) ++ rest) := by
    rw [whole]
    exact startsPlain_word start parts (endsWord_cons (by decide) (by decide) _) fun mem =>
      free (List.mem_append_left _ (List.mem_append_right _ mem))
  refine ⟨_, operand_reads offset plain (place_reads offset token ends base), rfl, rfl, ?_⟩
  simp [Tree.isBroken, Tree.anyBroken, fits tree yielded]

/-! ## Methods -/

/-- No statement starts at a closing brace. -/
theorem statement_brace (level offset : Nat) (rest : List Char) :
    (grammar level).statement.run ⟨offset, '\x7d' :: rest⟩ = none := by
  have brace : '\x7d' ∈ closers := by decide
  exact (Closing.barren brace rest).statement level (by simp) (by simp) offset

/-- Braces with nothing between them are a block. -/
private theorem block_empty (level offset : Nat) (rest : List Char) :
    (grammar (level + 1)).block.run ⟨offset, ' ' :: '\x7b' :: '\x7d' :: rest⟩ =
      some (⟨.other, offset + 1, ['\x7b', '\x7d'], []⟩, ⟨offset + 3, rest⟩) := by
  have token : StartsToken (['\x7b', '\x7d'] ++ rest) := ⟨'\x7b', _, rfl, by decide, by decide⟩
  have skipped : Cursor.skip ⟨offset, ' ' :: '\x7b' :: '\x7d' :: rest⟩ =
      ⟨offset + 1, ['\x7b', '\x7d'] ++ rest⟩ := skip_blanks offset blanks_space token
  have opened : (symbol "\x7b").run ⟨offset + 1, ['\x7b', '\x7d'] ++ rest⟩ =
      some ((), ⟨offset + 2, '\x7d' :: rest⟩) := symbol_next (offset + 1) token rfl
  have closed : (symbol "\x7d").run ⟨offset + 2, '\x7d' :: rest⟩ =
      some ((), ⟨offset + 3, rest⟩) :=
    symbol_next (offset + 2) (startsToken_closer rest (by decide)) rfl
  change (readBlock (grammar level)).run _ = _
  unfold readBlock spanned
  rw [run_then (run_trivia _), skipped, run_then (run_get _)]
  have inside : (do
      symbol "\x7b"
      let statements ← many (grammar level).statement
      symbol "\x7d"
      return statements).run ⟨offset + 1, ['\x7b', '\x7d'] ++ rest⟩ =
        some ([], ⟨offset + 3, rest⟩) := by
    rw [run_then opened, run_then (many_stuck (statement_brace level _ rest)), run_then closed]
    rfl
  rw [run_then inside]
  change some (Tree.mk _ _ (List.take _ _) _, _) = _
  have length : offset + 3 - (offset + 1) = ['\x7b', '\x7d'].length := by
    simp only [List.length_cons, List.length_nil]
    omega
  simp only [length, List.take_left]

/-- Parentheses with nothing between them are parameters. -/
private theorem signature_empty (level offset : Nat) (rest : List Char) :
    (grammar (level + 1)).signature.run ⟨offset, '(' :: ')' :: ' ' :: '\x7b' :: rest⟩ =
      some ([], ⟨offset + 2, ' ' :: '\x7b' :: rest⟩) := by
  have token : StartsToken ('(' :: ')' :: ' ' :: '\x7b' :: rest) :=
    ⟨'(', _, rfl, by decide, by decide⟩
  have brace : StartsToken ('\x7b' :: rest) := ⟨'\x7b', _, rfl, by decide, by decide⟩
  have untyped : (typeParameters (grammar level)).run
      ⟨offset, '(' :: ')' :: ' ' :: '\x7b' :: rest⟩ = none := by
    unfold typeParameters
    exact run_stuck _ (symbol_stuck (by rw [skip_token offset token]; rfl) rfl
      (show '<' ≠ '(' by decide))
  have opened : (symbol "(").run ⟨offset, '(' :: ')' :: ' ' :: '\x7b' :: rest⟩ =
      some ((), ⟨offset + 1, ')' :: ' ' :: '\x7b' :: rest⟩) := symbol_next offset token rfl
  have closing : (symbol ")").run ⟨offset + 1, ')' :: ' ' :: '\x7b' :: rest⟩ =
      some ((), ⟨offset + 2, ' ' :: '\x7b' :: rest⟩) :=
    symbol_next (offset + 1) (startsToken_closer _ (by decide)) rfl
  have given : (parameters (grammar level)).run ⟨offset, '(' :: ')' :: ' ' :: '\x7b' :: rest⟩ =
      some ([], ⟨offset + 2, ' ' :: '\x7b' :: rest⟩) := by
    unfold parameters closed
    rw [run_then opened, run_then (accepts_reads closing)]
    rfl
  have plain : (symbol ":").run ⟨offset + 2, ' ' :: '\x7b' :: rest⟩ = none := by
    have skipped : Cursor.skip ⟨offset + 2, ' ' :: '\x7b' :: rest⟩ =
        ⟨offset + 2 + 1, '\x7b' :: rest⟩ := skip_blanks _ blanks_space brace
    exact symbol_stuck (by rw [skipped]; rfl) rfl (show ':' ≠ '\x7b' by decide)
  change (readSignature (grammar level)).run _ = _
  unfold readSignature
  rw [run_then (accepts_stuck untyped), run_then given, run_then (accepts_stuck (run_stuck _ plain))]
  rfl

/-- Words that may stand before the key of a member. -/
def memberModifiers : List String :=
  ["public", "private", "protected", "static", "override", "readonly", "async", "get", "set"]

private theorem modifierIn_other {names : List String} {c : Char} {name rest : List Char}
    (start : isWordStart c = true) (parts : ∀ d ∈ name, isWordPart d = true)
    (ends : EndsWord rest) (offset : Nat) (free : String.ofList (c :: name) ∉ names) :
    (optional? (modifierIn names)).run ⟨offset, c :: name ++ rest⟩ =
      some (none, ⟨offset, c :: name ++ rest⟩) := by
  have other : names.contains (String.ofList (c :: name)) = false := by
    rw [List.contains_eq_mem, decide_eq_false_iff_not]
    exact free
  refine optional?_stuck ?_
  unfold modifierIn
  rw [run_then (word_reads offset start parts ends), other]
  rfl

/-- What stands behind the key of a method that neither takes parameters nor does anything. -/
def emptyBody : List Char :=
  ['(', ')', ' ', '\x7b', '\x7d']

private theorem methodRest_reads (level : Nat) (role : Role) (start : Cursor) (key : Tree)
    (offset : Nat) (rest : List Char) :
    ∃ body, body.isBroken = false ∧ (do
        let _ ← accepts (symbol "?")
        let given ← (grammar (level + 1)).signature
        let body ← (grammar (level + 1)).block
        node (.method role) start (key :: given ++ [body])).run ⟨offset, emptyBody ++ rest⟩ =
      some (⟨.method role, start.offset, start.rest.take (offset + 5 - start.offset), [key, body]⟩,
        ⟨offset + 5, rest⟩) := by
  have token : StartsToken (emptyBody ++ rest) := ⟨'(', _, rfl, by decide, by decide⟩
  have required : (symbol "?").run ⟨offset, emptyBody ++ rest⟩ = none :=
    symbol_stuck (by rw [skip_token offset token]; rfl) rfl (show '?' ≠ '(' by decide)
  have given : (grammar (level + 1)).signature.run ⟨offset, emptyBody ++ rest⟩ =
      some ([], ⟨offset + 2, ' ' :: '\x7b' :: '\x7d' :: rest⟩) :=
    signature_empty level offset ('\x7d' :: rest)
  refine ⟨⟨.other, offset + 2 + 1, ['\x7b', '\x7d'], []⟩, rfl, ?_⟩
  rw [run_then (accepts_stuck required), run_then given,
    run_then (block_empty level (offset + 2) rest)]
  rfl

private structure IsMethod (role : Role) (name : String) (code : List Char) (member : Tree) :
    Prop where
  kind : member.kind = .method role
  text : member.text = code
  parts : ∃ key body, member.children = [key, body] ∧ keyName? key = some name ∧
    key.isBroken = false ∧ body.isBroken = false

private theorem IsMethod.fits {role : Role} {name : String} {code : List Char} {member : Tree}
    (h : IsMethod role name code member) : Tree.anyBroken [member] = false := by
  obtain ⟨key, body, parts, -, whole, full⟩ := h.parts
  obtain ⟨kind, start, text, children⟩ := member
  obtain rfl : kind = .method role := h.kind
  obtain rfl : children = [key, body] := parts
  simp [Tree.anyBroken, Tree.isBroken, whole, full]

/-- A key with neither parameters nor statements behind it is a method. -/
private theorem objectMethod_plain (level : Nat) {c : Char} {name : List Char}
    (start : isWordStart c = true) (parts : ∀ d ∈ name, isWordPart d = true)
    (free : String.ofList (c :: name) ∉ memberModifiers) (offset : Nat) (rest : List Char) :
    ∃ member, (objectMethod (grammar (level + 1))).run
        ⟨offset, c :: name ++ (emptyBody ++ rest)⟩ =
          some (member, ⟨offset + (c :: name ++ emptyBody).length, rest⟩) ∧
      IsMethod .plain (String.ofList (c :: name)) (c :: name ++ emptyBody) member := by
  have token : StartsToken (c :: name ++ (emptyBody ++ rest)) := startsToken_word _ start
  have ends : EndsWord (emptyBody ++ rest) := endsWord_cons (by decide) (by decide) _
  have plain {names : List String} (among : ∀ word ∈ names, word ∈ memberModifiers) :=
    modifierIn_other start parts ends offset fun mem => free (among _ mem)
  have star : (symbol "*").run ⟨offset, c :: name ++ (emptyBody ++ rest)⟩ = none :=
    symbol_stuck (by rw [skip_token offset token]; rfl) rfl
      (ne_of_isWordStart start (by decide)).symm
  have key := memberKey_word (grammar (level + 1)) blanks_nil start parts ends offset
  obtain ⟨body, full, read⟩ := methodRest_reads level .plain
    ⟨offset, c :: name ++ (emptyBody ++ rest)⟩ ⟨.name, offset, c :: name, []⟩
    (offset + (c :: name).length) rest
  have length : offset + (c :: name).length + 5 = offset + (c :: name ++ emptyBody).length := by
    rw [List.length_append, ← Nat.add_assoc]
    rfl
  rw [← List.append_assoc, length, Nat.add_sub_cancel_left, List.take_left,
    List.append_assoc] at read
  refine ⟨⟨.method .plain, offset, c :: name ++ emptyBody, [⟨.name, offset, c :: name, []⟩, body]⟩,
    ?_, rfl, rfl, _, body, rfl, rfl, rfl, full⟩
  unfold objectMethod
  rw [run_then (run_trivia _), skip_token offset token, run_then (run_get _),
    run_then (plain (by decide)), run_then (plain (by decide)), run_then (plain (by decide)),
    run_then (plain (by decide)), run_then (plain (by decide)), run_then (plain (by decide))]
  simp only [Option.isNone_none, if_true]
  rw [run_then (accepts_stuck star)]
  exact (run_then key).trans read

/-- A word before a key is a modifier, if it is one of those that are looked for. -/
private theorem modifierIn_reads {names : List String} {c d : Char} {before name rest : List Char}
    (start : isWordStart c = true) (parts : ∀ d ∈ before, isWordPart d = true)
    (among : String.ofList (c :: before) ∈ names) (key : isWordStart d = true) (offset : Nat) :
    (optional? (modifierIn names)).run ⟨offset, c :: before ++ ' ' :: (d :: name ++ rest)⟩ =
      some (some (String.ofList (c :: before)),
        ⟨offset + (c :: before).length, ' ' :: (d :: name ++ rest)⟩) := by
  have ends : EndsWord (' ' :: (d :: name ++ rest)) := endsWord_cons (by decide) (by decide) _
  have token : StartsToken (d :: name ++ rest) := startsToken_word _ key
  have found : names.contains (String.ofList (c :: before)) = true := by
    rw [List.contains_eq_mem, decide_eq_true_eq]
    exact among
  have follows : keyFollows.run ⟨offset + (c :: before).length, ' ' :: (d :: name ++ rest)⟩ =
      some ((), ⟨offset + (c :: before).length + 1, d :: name ++ rest⟩) := by
    unfold keyFollows
    rw [run_then (run_look _)]
    have skipped : Cursor.skip ⟨offset + (c :: before).length, ' ' :: (d :: name ++ rest)⟩ =
        ⟨offset + (c :: before).length + 1, d :: name ++ rest⟩ := skip_blanks _ blanks_space token
    rw [skipped]
    simp only [List.cons_append, key, Bool.true_or, Bool.not_true, Bool.false_eq_true, if_false]
    rfl
  refine optional?_reads ?_
  unfold modifierIn
  rw [run_then (word_reads offset start parts ends), found]
  simp only [Bool.not_true, Bool.false_eq_true, if_false]
  rw [run_then (run_get _), run_then follows]
  rfl

/-- The word for an access before a key makes a getter of the method. -/
private theorem objectMethod_getter (level : Nat) {c : Char} {name : List Char}
    (start : isWordStart c = true) (parts : ∀ d ∈ name, isWordPart d = true) (offset : Nat)
    (rest : List Char) :
    ∃ member, (objectMethod (grammar (level + 1))).run
        ⟨offset, ['g', 'e', 't'] ++ ' ' :: (c :: name ++ (emptyBody ++ rest))⟩ =
          some (member, ⟨offset + (['g', 'e', 't'] ++ ' ' :: (c :: name ++ emptyBody)).length,
            rest⟩) ∧
      IsMethod .getter (String.ofList (c :: name))
        (['g', 'e', 't'] ++ ' ' :: (c :: name ++ emptyBody)) member := by
  have opens : isWordStart 'g' = true := by decide
  have letters : ∀ d ∈ ['e', 't'], isWordPart d = true := forall_mem_of_all (by decide)
  have access : String.ofList ['g', 'e', 't'] = "get" := rfl
  have token : StartsToken (['g', 'e', 't'] ++ ' ' :: (c :: name ++ (emptyBody ++ rest))) :=
    startsToken_word _ opens
  have ends : EndsWord (' ' :: (c :: name ++ (emptyBody ++ rest))) :=
    endsWord_cons (by decide) (by decide) _
  have other {names : List String} (among : String.ofList ['g', 'e', 't'] ∉ names) :=
    modifierIn_other opens letters ends offset among
  have getter : (optional? (modifierIn ["get", "set"])).run
      ⟨offset, ['g', 'e', 't'] ++ ' ' :: (c :: name ++ (emptyBody ++ rest))⟩ =
        some (some "get", ⟨offset + 3, ' ' :: (c :: name ++ (emptyBody ++ rest))⟩) :=
    modifierIn_reads opens letters (by decide) start offset
  have key := memberKey_word (grammar (level + 1)) blanks_space start parts
    (endsWord_cons (by decide) (by decide) _ : EndsWord (emptyBody ++ rest)) (offset + 3)
  obtain ⟨body, full, read⟩ := methodRest_reads level .getter
    ⟨offset, ['g', 'e', 't'] ++ ' ' :: (c :: name ++ (emptyBody ++ rest))⟩
    ⟨.name, offset + 3 + 1, c :: name, []⟩ (offset + 3 + 1 + (c :: name).length) rest
  have length : offset + 3 + 1 + (c :: name).length + 5 =
      offset + (['g', 'e', 't'] ++ ' ' :: (c :: name ++ emptyBody)).length := by
    simp only [List.length_append, List.length_cons, List.length_nil, emptyBody]
    omega
  have whole : ['g', 'e', 't'] ++ ' ' :: (c :: name ++ (emptyBody ++ rest)) =
      (['g', 'e', 't'] ++ ' ' :: (c :: name ++ emptyBody)) ++ rest := by simp
  rw [length, Nat.add_sub_cancel_left] at read
  refine ⟨⟨.method .getter, offset, ['g', 'e', 't'] ++ ' ' :: (c :: name ++ emptyBody),
    [⟨.name, offset + 3 + 1, c :: name, []⟩, body]⟩, ?_, rfl, rfl, _, body, rfl, rfl, rfl, full⟩
  have source : (['g', 'e', 't'] ++ ' ' :: (c :: name ++ (emptyBody ++ rest))).take
      (['g', 'e', 't'] ++ ' ' :: (c :: name ++ emptyBody)).length =
        ['g', 'e', 't'] ++ ' ' :: (c :: name ++ emptyBody) := by
    rw [whole, List.take_left]
  rw [source] at read
  unfold objectMethod
  rw [run_then (run_trivia _), skip_token offset token, run_then (run_get _),
    run_then (other (by decide)), run_then (other (by decide)), run_then (other (by decide)),
    run_then (other (by decide)), run_then (other (by decide)), run_then getter]
  exact (run_then key).trans read

/-! ## Members -/

/-- A method is read as a member, as no colon follows the word that it starts with. -/
private theorem member_method {g : Grammar} {c : Char} {name behind : List Char} {tree : Tree}
    {there : Cursor} (start : isWordStart c = true) (parts : ∀ d ∈ name, isWordPart d = true)
    (ends : EndsWord behind) (offset : Nat)
    (noPair : (symbol ":").run ⟨offset + 1 + (c :: name).length, behind⟩ = none)
    (h : (objectMethod g).run ⟨offset + 1, c :: name ++ behind⟩ = some (tree, there)) :
    (do
      let before ← many markup
      return before ++ [← objectMember g]).run ⟨offset, ' ' :: (c :: name ++ behind)⟩ =
        some ([tree], there) := by
  have other : ∀ mark ∈ punctuation, c ≠ mark := fun _ mem => ne_of_isWordStart start mem
  have token : StartsToken (c :: name ++ behind) := startsToken_word _ start
  have skipped : Cursor.skip ⟨offset, ' ' :: (c :: name ++ behind)⟩ =
      ⟨offset + 1, c :: name ++ behind⟩ := skip_blanks offset blanks_space token
  have unmarked : (many markup).run ⟨offset, ' ' :: (c :: name ++ behind)⟩ =
      some ([], ⟨offset, ' ' :: (c :: name ++ behind)⟩) := by
    refine many_stuck (markup_stuck ?_)
    rw [skipped]
    exact markup?_none _ (other '<' (by decide)) (other '-' (by decide))
  have unpaired : (spanned .pair (do
      let key ← memberKey g
      symbol ":"
      return [key, ← g.expression Context.inner])).run ⟨offset + 1, c :: name ++ behind⟩ = none := by
    have key := memberKey_word g blanks_nil start parts ends (offset + 1)
    refine spanned_stuck ?_
    rw [skip_token _ token]
    exact (run_then key).trans (run_stuck _ noPair)
  have member : (objectMember g).run ⟨offset, ' ' :: (c :: name ++ behind)⟩ =
      some (tree, there) := by
    unfold objectMember
    rw [run_then (run_look _), skipped]
    split
    · next heq => exact absurd (List.cons.inj heq).1 (other '.' (by decide))
    · rw [run_second _ unpaired]
      exact run_first _ h
  rw [run_then unmarked, run_then member]
  rfl

private theorem entry_of_method {role : Role} {name : String} {code : List Char} {member : Tree}
    (h : IsMethod role name code member) (entry : Entry)
    (kind : (role = .plain ∧ entry = .method name (String.ofList code)) ∨
      (role = .getter ∧ entry = .getter name (String.ofList code))) :
    AreMembers [entry] [member] := by
  obtain ⟨key, body, parts, named, -, -⟩ := h.parts
  refine ⟨?_, h.fits⟩
  rcases kind with ⟨rfl, rfl⟩ | ⟨rfl, rfl⟩ <;>
    simp [Entry.ofMember, h.kind, parts, named, Tree.source, h.text]

/-- What is read as a method or getter whatever follows is read back as that member. -/
private theorem readsMember_of_method {role : Role} {name : String} {code : List Char}
    {entry : Entry} (kind : (role = .plain ∧ entry = .method name (String.ofList code)) ∨
      (role = .getter ∧ entry = .getter name (String.ofList code)))
    (admitted : hasForeign code = false) (filled : code ≠ [])
    (reads : ∀ level offset rest, ∃ member, (do
        let before ← many markup
        return before ++ [← objectMember (grammar (level + 1))]).run
          ⟨offset, ' ' :: (code ++ rest)⟩ =
        some ([member], ⟨offset + 1 + code.length, rest⟩) ∧ IsMethod role name code member) :
    ReadsMember (String.ofList code) entry := by
  refine ⟨by rwa [String.toList_ofList], fun level enough offset rest _ => ?_⟩
  rw [String.toList_ofList] at enough ⊢
  obtain ⟨less, rfl⟩ : ∃ less, level = less + 1 :=
    ⟨level - 1, by have := List.length_pos_iff.mpr filled; omega⟩
  obtain ⟨member, read, isMethod⟩ := reads less offset rest
  refine ⟨[member], ?_, entry_of_method isMethod entry kind⟩
  rw [List.cons_append, read, List.length_cons, Nat.add_assoc, Nat.add_comm 1]

private theorem hasForeign_emptyBody : hasForeign emptyBody = false := by decide

def emptyMethod (name : String) : String :=
  String.ofList (name.toList ++ emptyBody)

def emptyGetter (name : String) : String :=
  String.ofList ("get".toList ++ ' ' :: (name.toList ++ emptyBody))

theorem readsMember_emptyMethod {name : String} (h : isName name = true)
    (free : name ∉ memberModifiers) :
    ReadsMember (emptyMethod name) (.method name (emptyMethod name)) := by
  obtain ⟨c, tail, word, start, parts⟩ := isWord_of_isName h
  have source : String.ofList (c :: tail) = name := by rw [← word, String.ofList_toList]
  have admitted : hasForeign (name.toList ++ emptyBody) = false := by
    rw [hasForeign_append, hasForeign_name h, hasForeign_emptyBody]
    rfl
  refine readsMember_of_method (.inl ⟨rfl, rfl⟩) admitted (by simp [word])
    fun level offset rest => ?_
  rw [word]
  obtain ⟨member, read, isMethod⟩ :=
    objectMethod_plain level start parts (source ▸ free) (offset + 1) rest
  have token : StartsToken (emptyBody ++ rest) := ⟨'(', _, rfl, by decide, by decide⟩
  have noPair : (symbol ":").run ⟨offset + 1 + (c :: tail).length, emptyBody ++ rest⟩ = none :=
    symbol_stuck (by rw [skip_token _ token]; rfl) rfl (show ':' ≠ '(' by decide)
  refine ⟨member, ?_, source ▸ isMethod⟩
  rw [List.append_assoc]
  exact member_method start parts (endsWord_cons (by decide) (by decide) _) offset noPair read

theorem readsMember_emptyGetter {name : String} (h : isName name = true) :
    ReadsMember (emptyGetter name) (.getter name (emptyGetter name)) := by
  obtain ⟨c, tail, word, start, parts⟩ := isWord_of_isName h
  have source : String.ofList (c :: tail) = name := by rw [← word, String.ofList_toList]
  have access : "get".toList = ['g', 'e', 't'] := rfl
  have admitted : hasForeign ("get".toList ++ ' ' :: (name.toList ++ emptyBody)) = false := by
    rw [hasForeign_append, hasForeign_cons, hasForeign_append, hasForeign_name h,
      hasForeign_emptyBody]
    decide
  refine readsMember_of_method (.inr ⟨rfl, rfl⟩) admitted (by simp) fun level offset rest => ?_
  rw [word, access]
  obtain ⟨member, read, isMethod⟩ := objectMethod_getter level start parts (offset + 1) rest
  have token : StartsToken (c :: tail ++ (emptyBody ++ rest)) := startsToken_word _ start
  have noPair : (symbol ":").run ⟨offset + 1 + ['g', 'e', 't'].length,
      ' ' :: (c :: tail ++ (emptyBody ++ rest))⟩ = none := by
    have skipped := skip_blanks (offset + 1 + ['g', 'e', 't'].length) blanks_space token
    refine symbol_stuck (c := c) ?_ rfl (ne_of_isWordStart start (by decide)).symm
    exact (congrArg (fun here => here.rest.head?) skipped).trans rfl
  refine ⟨member, ?_, source ▸ isMethod⟩
  have whole : ['g', 'e', 't'] ++ ' ' :: (c :: tail ++ emptyBody) ++ rest =
      ['g', 'e', 't'] ++ ' ' :: (c :: tail ++ (emptyBody ++ rest)) := by simp
  rw [whole]
  exact member_method (by decide) (forall_mem_of_all (by decide))
    (endsWord_cons (by decide) (by decide) _) offset noPair read

end BlockLoom.Script
