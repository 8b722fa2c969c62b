import BlockLoom.Proofs.Script.Written

/-!
Names with properties behind dots, such as most expressions for single styles are. They
are read back verbatim, unless the first name is a word with a meaning of its own.
-/

namespace BlockLoom.Script

open Scan

/-! ## A name -/

/-- The words that do not stand for themselves at the start of an operand. -/
def operandWords : List String :=
  ["true", "false", "null", "function", "class", "new", "import", "namespace", "async"] ++
    prefixWords

private theorem isDigit_of_isWordStart {c : Char} (h : isWordStart c = true) :
    c.isDigit = false := by
  simp only [isWordStart, Bool.and_eq_true, Bool.not_eq_true'] at h
  exact h.2

private theorem wordOperand_name (g : Grammar) (context : Context) (start : Cursor) {c : Char}
    {name rest : List Char} {offset : Nat} (free : String.ofList (c :: name) ∉ operandWords)
    (named : (leaf .identifier (do let _ ← word)).run ⟨offset, c :: name ++ rest⟩ =
      some (⟨.identifier, offset, c :: name, []⟩, ⟨offset + (c :: name).length, rest⟩))
    (arrowless : ∀ tail, (Cursor.skip ⟨offset + (c :: name).length, rest⟩).rest ≠ '=' :: tail) :
    (wordOperand g context start (String.ofList (c :: name))).run ⟨offset, c :: name ++ rest⟩ =
      some (⟨.identifier, offset, c :: name, []⟩, ⟨offset + (c :: name).length, rest⟩) := by
  generalize String.ofList (c :: name) = text at free
  unfold wordOperand
  -- Only the words themselves have branches of their own.
  split <;> try exact absurd (by decide) free
  split
  · exact named
  · rw [run_then named, run_then (run_get _), run_then (run_look _)]
    split
    · next arrow => exact absurd arrow (arrowless _)
    · rfl

theorem arrowless_token {c : Char} {rest : List Char} (offset : Nat)
    (token : StartsToken (c :: rest)) (other : c ≠ '=') (tail : List Char) :
    (Cursor.skip ⟨offset, c :: rest⟩).rest ≠ '=' :: tail := by
  rw [skip_token offset token]
  exact fun arrow => other (List.cons.inj arrow).1

/-- An operand that starts with a word is told apart by that word. -/
theorem bareOperand_word (g : Grammar) (context : Context) (start : Cursor) {c : Char}
    {name rest : List Char} (wordStart : isWordStart c = true)
    (parts : ∀ d ∈ name, isWordPart d = true) (ends : EndsWord rest) (offset : Nat) :
    (bareOperand g context start).run ⟨offset, c :: name ++ rest⟩ =
      (wordOperand g context start (String.ofList (c :: name))).run ⟨offset, c :: name ++ rest⟩ := by
  have token : StartsToken (c :: name ++ rest) := startsToken_word _ wordStart
  have other : ∀ mark ∈ ['(', '[', '\x7b', '"', '\'', '\x60', '/', '@', '#', '.'],
      (c == mark) = false := fun mark mem =>
    beq_eq_false_iff_ne.mpr (ne_of_isWordStart wordStart (forall_mem_of_all (by decide) mark mem))
  simp only [List.forall_mem_cons, List.not_mem_nil, false_implies, implies_true, and_true]
    at other
  have filled : (String.ofList (c :: name)).isEmpty = false := by
    rw [Bool.eq_false_iff, Ne, String.isEmpty_iff, String.ofList_eq_empty_iff]
    exact List.cons_ne_nil _ _
  unfold bareOperand
  rw [run_then (run_look _), skip_token offset token]
  simp only [List.cons_append, other, isDigit_of_isWordStart wordStart, Bool.or_self,
    Bool.false_and, Bool.false_eq_true, if_false]
  rw [← List.cons_append, run_then (peekWord_reads offset wordStart parts ends), filled]
  rfl

/-- A word without escapes is a name. -/
theorem identifier_reads {c : Char} {name rest : List Char} (wordStart : isWordStart c = true)
    (parts : ∀ d ∈ name, isWordPart d = true) (ends : EndsWord rest) (offset : Nat) :
    (leaf .identifier (do let _ ← word)).run ⟨offset, c :: name ++ rest⟩ =
      some (⟨.identifier, offset, c :: name, []⟩, ⟨offset + (c :: name).length, rest⟩) :=
  leaf_reads offset (startsToken_word _ wordStart)
    (run_then (word_reads offset wordStart parts ends))

/-- A name that no arrow follows is an operand. -/
theorem bareOperand_name (g : Grammar) (context : Context) (start : Cursor) {c : Char}
    {name rest : List Char} (wordStart : isWordStart c = true)
    (parts : ∀ d ∈ name, isWordPart d = true) (free : String.ofList (c :: name) ∉ operandWords)
    (ends : EndsWord rest) (offset : Nat)
    (arrowless : ∀ tail, (Cursor.skip ⟨offset + (c :: name).length, rest⟩).rest ≠ '=' :: tail) :
    (bareOperand g context start).run ⟨offset, c :: name ++ rest⟩ =
      some (⟨.identifier, offset, c :: name, []⟩, ⟨offset + (c :: name).length, rest⟩) := by
  rw [bareOperand_word g context start wordStart parts ends offset]
  exact wordOperand_name g context start free (identifier_reads wordStart parts ends offset)
    arrowless

/-! ## Properties -/

def behindDots (properties : List (List Char)) : List Char :=
  properties.flatMap fun name => '.' :: name

private theorem Ends.endsWord_behindDots {rest : List Char} (h : Ends rest)
    (properties : List (List Char)) : EndsWord (behindDots properties ++ rest) := by
  cases properties with
  | nil => exact h.endsWord
  | cons name properties => exact endsWord_cons (by decide) (by decide) _

/-- A dot and a name are a suffix of what stands before them. -/
theorem suffix_property (g : Grammar) (context : Context) (calls : Bool) (start : Cursor)
    (base : Tree) {name rest : List Char} (word : IsWord name) (ends : EndsWord rest)
    (offset : Nat) :
    (suffix g context calls start base).run ⟨offset, '.' :: (name ++ rest)⟩ =
      some (⟨.property, start.offset, start.rest.take (offset + 1 + name.length - start.offset),
        [base, ⟨.name, offset + 1, name, []⟩]⟩, ⟨offset + 1 + name.length, rest⟩) := by
  obtain ⟨c, name, rfl, wordStart, parts⟩ := word
  have opened : StartsToken ('.' :: (c :: name ++ rest)) := ⟨'.', _, rfl, by decide, by decide⟩
  have token : StartsToken (c :: name ++ rest) := startsToken_word _ wordStart
  have point : (symbol ".").run ⟨offset, '.' :: (c :: name ++ rest)⟩ =
      some ((), ⟨offset + 1, c :: name ++ rest⟩) := symbol_next offset opened rfl
  have hash : (symbol "#").run ⟨offset + 1, c :: name ++ rest⟩ = none :=
    symbol_stuck (by rw [skip_token _ token]; rfl) rfl
      (ne_of_isWordStart wordStart (by decide)).symm
  have read : propertyName.run ⟨offset + 1, c :: name ++ rest⟩ =
      some (⟨.name, offset + 1, c :: name, []⟩, ⟨offset + 1 + (c :: name).length, rest⟩) := by
    refine leaf_reads (offset + 1) token ?_
    rw [run_then (accepts_stuck hash)]
    exact run_then (word_reads (offset + 1) wordStart parts ends)
  have passed : continues.run ⟨offset, '.' :: (c :: name ++ rest)⟩ =
      some ((), ⟨offset, '.' :: (c :: name ++ rest)⟩) :=
    run_continues_token offset (by decide) (by decide) (by decide)
  unfold suffix
  dsimp only
  rw [run_guarded _ passed, run_then (run_look _), skip_token offset opened]
  split
  · next heq =>
    exact absurd (List.cons.inj (List.cons.inj heq).2).1 (ne_of_isWordStart wordStart (by decide))
  · rw [run_then point, run_then read]
    rfl
  all_goals first
    | next heq => cases heq
    | exact absurd rfl (‹∀ tail, '.' :: (c :: name ++ rest) = '.' :: tail → False› _)

/-- Properties are all read as suffixes, one after the other, up to a text that ends the
expression. -/
private theorem suffixes_properties (g : Grammar) (context : Context) (start : Cursor)
    {properties : List (List Char)} (words : ∀ name ∈ properties, IsWord name)
    {rest : List Char} (ends : Ends rest) {count : Nat} (enough : properties.length ≤ count)
    (base : Tree) (offset : Nat)
    (source : IsSource (start.rest.take (offset - start.offset)) base) :
    ∃ tree, (suffixes g context true start count base).run
        ⟨offset, behindDots properties ++ rest⟩ =
          some (tree, ⟨offset + (behindDots properties).length, rest⟩) ∧
      IsSource (start.rest.take (offset + (behindDots properties).length - start.offset)) tree := by
  induction properties generalizing count base offset with
  | nil => exact ⟨base, (ends.closing offset).suffixes g context true start count base, source⟩
  | cons name properties ih =>
    obtain ⟨word, words⟩ := List.forall_mem_cons.mp words
    match count, enough with
    | count + 1, enough =>
      have endsWord := ends.endsWord_behindDots properties
      have first := suffix_property g context true start base word endsWord offset
      have next : IsSource (start.rest.take (offset + 1 + name.length - start.offset))
          ⟨.property, start.offset, start.rest.take (offset + 1 + name.length - start.offset),
            [base, ⟨.name, offset + 1, name, []⟩]⟩ :=
        ⟨rfl, Kind.noConfusion, by rw [Tree.isBroken, Tree.anyBroken, source.fits]; rfl⟩
      obtain ⟨tree, others, whole⟩ := ih words (Nat.le_of_succ_le_succ enough) _
        (offset + 1 + name.length) next
      have length : offset + 1 + name.length + (behindDots properties).length =
          offset + (behindDots (name :: properties)).length := by
        simp [behindDots]
        omega
      rw [length] at others whole
      refine ⟨tree, ?_, whole⟩
      unfold suffixes
      have whole : behindDots (name :: properties) ++ rest =
          '.' :: (name ++ (behindDots properties ++ rest)) := by
        simp [behindDots]
      rw [whole, run_then (optional?_reads first)]
      exact others

/-! ## Names with properties -/

/-- No arrow follows a name with properties where the expression ends with them. -/
private theorem Ends.arrowless {rest : List Char} (h : Ends rest) (properties : List (List Char))
    (offset : Nat) (tail : List Char) :
    (Cursor.skip ⟨offset, behindDots properties ++ rest⟩).rest ≠ '=' :: tail := by
  cases properties with
  | nil =>
    intro arrow
    obtain ⟨c, others, skipped, closer⟩ := h.closing offset
    have same : c = '=' := (List.cons.inj (skipped.symm.trans arrow)).1
    exact absurd (same ▸ closer) (by decide)
  | cons name properties =>
    exact arrowless_token offset ⟨'.', _, rfl, by decide, by decide⟩ (by decide) tail

private theorem length_le_behindDots (properties : List (List Char)) :
    properties.length ≤ (behindDots properties).length := by
  induction properties with
  | nil => exact Nat.le_refl _
  | cons name properties ih =>
    simp only [behindDots, List.flatMap_cons, List.length_append, List.length_cons] at ih ⊢
    omega

theorem readsAs_properties (level : Nat) {first : List Char}
    {properties : List (List Char)} (word : IsWord first)
    (free : String.ofList first ∉ operandWords) (words : ∀ name ∈ properties, IsWord name) :
    ReadsAs (level + 1) (first ++ behindDots properties) := by
  obtain ⟨c, name, rfl, wordStart, parts⟩ := word
  refine readsTree_operand (fun rest => startsToken_word _ wordStart) (fun rest => markup?_none _
    (ne_of_isWordStart wordStart (by decide)) (ne_of_isWordStart wordStart (by decide)))
    fun offset rest ends => ?_
  have token : StartsToken (c :: name ++ behindDots properties ++ rest) :=
    startsToken_word _ wordStart
  have endsWord := ends.endsWord_behindDots properties
  have plain : StartsPlain (c :: name ++ behindDots properties ++ rest) := by
    rw [List.append_assoc]
    exact startsPlain_word wordStart parts endsWord fun mem => free (List.mem_append_right _ mem)
  generalize hstart : Cursor.mk offset (c :: name ++ behindDots properties ++ rest) = start
  have base := bareOperand_name (grammar level) Context.inner start wordStart parts free endsWord
    offset (ends.arrowless properties _)
  have enough : properties.length ≤ (c :: name ++ behindDots properties ++ rest).length := by
    have least := length_le_behindDots properties
    simp only [List.length_append]
    omega
  obtain ⟨tree, others, source⟩ := suffixes_properties (grammar level) Context.inner start
    words ends enough ⟨.identifier, offset, c :: name, []⟩ (offset + (c :: name).length)
    ⟨by simp [← hstart], Kind.noConfusion, rfl⟩
  have length : offset + (c :: name).length + (behindDots properties).length =
      offset + (c :: name ++ behindDots properties).length := by
    rw [List.length_append, Nat.add_assoc]
  rw [length] at others source
  subst hstart
  refine ⟨tree, ?_, ?_⟩
  · rw [← List.append_assoc] at base
    exact operand_reads offset plain (place_suffixed offset token ends base others)
  · rwa [Nat.add_sub_cancel_left, List.take_left] at source

theorem readsVerbatim_properties {first : String} {properties : List String}
    (name : isName first = true) (free : first ∉ operandWords)
    (names : ∀ property ∈ properties, isName property = true) :
    ReadsVerbatim (".".intercalate (first :: properties)) := by
  have text : (".".intercalate (first :: properties)).toList =
      first.toList ++ behindDots (properties.map String.toList) := by
    rw [toList_intercalate, behindDots, List.flatMap_map]
    rfl
  have admitted : hasForeign (behindDots (properties.map String.toList)) = false := by
    clear text
    induction properties with
    | nil => rfl
    | cons property properties ih =>
      obtain ⟨name, names⟩ := List.forall_mem_cons.mp names
      rw [List.map_cons, behindDots, List.flatMap_cons, hasForeign_append, hasForeign_cons,
        hasForeign_name name]
      exact ih names
  refine ReadsAs.readsVerbatim ?_ fun level enough => ?_
  · rw [text, hasForeign_append, hasForeign_name name, admitted]
    rfl
  · obtain ⟨c, rest, opened, -⟩ := isWord_of_isName name
    rw [text] at enough ⊢
    obtain ⟨less, rfl⟩ : ∃ less, level = less + 1 := by
      rw [opened, List.cons_append, List.length_cons] at enough
      exact ⟨level - 1, by omega⟩
    refine readsAs_properties less (isWord_of_isName name) (by rwa [String.ofList_toList])
      fun word mem => ?_
    obtain ⟨property, listed, rfl⟩ := List.mem_map.mp mem
    exact isWord_of_isName (names property listed)

end BlockLoom.Script
