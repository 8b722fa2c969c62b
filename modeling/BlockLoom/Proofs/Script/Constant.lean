import BlockLoom.Proofs.Script.Nested
import BlockLoom.Script.Constant

/-!
JSON values as expressions. The compact text of a value is read as an expression
whose source is that text, by every grammar with as many levels as it has characters.
If all numbers of the value are integers, the expression stands for the value again.
-/

namespace BlockLoom.Script

open Scan

/-- A text that is read as an expression, whatever blanks stand before it. -/
def ReadsTree (level : Nat) (code : List Char) (yields : Tree → Prop) : Prop :=
  ∀ blanks, Blanks blanks →
    Reads Ends ((grammar level).expression Context.inner) (blanks ++ code) yields

/-- A text that is read as an expression with itself as its source. -/
def ReadsAs (level : Nat) (code : List Char) : Prop :=
  ReadsTree level code (IsSource code)

theorem ReadsTree.mono {level : Nat} {code : List Char} {yields holds : Tree → Prop}
    (h : ReadsTree level code yields) (weaker : ∀ tree, yields tree → holds tree) :
    ReadsTree level code holds := by
  intro blanks hb offset rest ends
  obtain ⟨tree, run, yielded⟩ := h blanks hb offset rest ends
  exact ⟨tree, run, weaker tree yielded⟩

theorem readsTree_operand {level : Nat} {code : List Char} {yields : Tree → Prop}
    (token : ∀ rest, StartsToken (code ++ rest)) (unmarked : ∀ rest, markup? (code ++ rest) = none)
    (h : ∀ offset rest, Ends rest → ∃ tree,
      (operand (grammar level) Context.inner).run ⟨offset, code ++ rest⟩ =
        some (tree, ⟨offset + code.length, rest⟩) ∧ yields tree) :
    ReadsTree (level + 1) code yields := by
  intro blanks hb offset rest ends
  obtain ⟨tree, read, source⟩ := h (offset + blanks.length) rest ends
  refine ⟨tree, ?_, source⟩
  rw [List.append_assoc, expression_reads offset hb (token rest) (unmarked rest) ends read,
    List.length_append, Nat.add_assoc]

private theorem readsTree_plain {level : Nat} {code : List Char} {yields : Tree → Prop}
    (plain : ∀ rest, Ends rest → StartsPlain (code ++ rest))
    (token : ∀ rest, StartsToken (code ++ rest)) (unmarked : ∀ rest, markup? (code ++ rest) = none)
    (h : ∀ offset rest, Ends rest → ∃ tree,
      (bareOperand (grammar level) Context.inner ⟨offset, code ++ rest⟩).run
          ⟨offset, code ++ rest⟩ =
        some (tree, ⟨offset + code.length, rest⟩) ∧ yields tree) :
    ReadsTree (level + 1) code yields := by
  refine readsTree_operand token unmarked fun offset rest ends => ?_
  obtain ⟨tree, read, source⟩ := h offset rest ends
  exact ⟨tree, operand_reads offset (plain rest ends)
    (place_reads offset (token rest) ends read), source⟩

/-! ## Beginnings -/

private theorem opensPlain_digit {c : Char} (h : c.isDigit = true) : OpensPlain c := by
  have part := isWordPart_of_isDigit h
  refine ⟨?_, by simp [isWordStart, h], ?_⟩
  · simp only [isWordPart, Bool.and_eq_true, Bool.not_eq_true'] at part
    exact part.1.2
  · have none : ∀ d ∈ ['/', '<', '!', '~', '+', '-', '\\'], d.isDigit = false :=
      forall_mem_of_all (by decide)
    intro mem
    exact Bool.false_ne_true ((none c mem).symm.trans h)

/-! ## Constants -/

/-- An expression with the given source that stands for a value, if its numbers are integers. -/
structure IsData (value : Json) (code : List Char) (tree : Tree) : Prop where
  source : IsSource code tree
  constant : value.isIntegral = true → constant? tree = some value.settled

theorem constants?_of_data {code : Json → List Char} {items : List Json} {trees : List Tree}
    (all : List.Forall₂ (fun item => IsData item (code item)) items trees)
    (integral : Json.areIntegral items = true) :
    constants? trees = some (Json.settledItems items) := by
  induction all with
  | nil => rw [constants?, Json.settledItems]
  | cons first _ ih =>
    rw [Json.areIntegral, Bool.and_eq_true] at integral
    rw [constants?, first.constant integral.1, ih integral.2, Json.settledItems]

/-- An array of expressions that stand for values stands for the array of these values. -/
theorem isData_array (code : Json → List Char) {items : List Json} {trees : List Tree}
    (all : List.Forall₂ (fun item => IsData item (code item)) items trees) (offset : Nat)
    (text : List Char) : IsData (.array items) text ⟨.array, offset, text, trees⟩ := by
  have fits := anyBroken_of_forall₂ (all.imp fun _ _ data => data.source.fits)
  refine ⟨⟨rfl, Kind.noConfusion, fits⟩, fun integral => ?_⟩
  rw [constant?, constants?_of_data all integral]
  rfl

theorem IsPair.constantMembers?_cons {key : String} {value : Json} {member : Tree}
    {members : List Tree} {read : List (String × Json)}
    (pair : IsPair key (fun tree => constant? tree = some value) member)
    (others : constantMembers? members = some read) :
    constantMembers? (member :: members) = some ((key, value) :: read) := by
  obtain ⟨name, tree, parts, named, -, constant⟩ := pair.parts
  obtain ⟨kind, start, text, children⟩ := member
  obtain rfl : kind = .pair := pair.kind
  obtain rfl : children = [name, tree] := parts
  simp only [constantMembers?, named, constant, others]

/-- Trees that are each read as one member, with a key and an expression that stands for the
value under that key. -/
def AreData (code : Json → List Char) (members : List (String × Json)) (values : List (List Tree)) :
    Prop :=
  List.Forall₂ (fun member trees => ∃ tree, trees = [tree] ∧
    IsPair member.1 (IsData member.2 (code member.2)) tree) members values

theorem AreData.fits {code : Json → List Char} {members : List (String × Json)}
    {values : List (List Tree)} (all : AreData code members values) :
    Tree.anyBroken values.flatten = false := by
  have read : AreMembers
      (members.map fun member => .property member.1 (String.ofList (code member.2)))
      values.flatten := by
    refine areMembers_flatten (List.Forall₂.imp (fun _ _ h => ?_) all)
    obtain ⟨tree, rfl, pair⟩ := h
    exact (pair.mono fun _ data => data.source).property
  exact read.fits

theorem AreData.constantMembers? {code : Json → List Char} {members : List (String × Json)}
    {values : List (List Tree)} (all : AreData code members values)
    (integral : Json.haveIntegral members = true) :
    Script.constantMembers? values.flatten = some (Json.settledMembers members) := by
  induction all with
  | nil => rw [List.flatten_nil, Script.constantMembers?, Json.settledMembers]
  | cons first _ ih =>
    obtain ⟨tree, rfl, pair⟩ := first
    rw [Json.haveIntegral, Bool.and_eq_true] at integral
    exact (pair.mono fun _ data => data.constant integral.1).constantMembers?_cons
      (ih integral.2)

/-- An object whose values are expressions that stand for values stands for the object of these
values. -/
theorem isData_object (code : Json → List Char) {members : List (String × Json)}
    {values : List (List Tree)} (all : AreData code members values) (offset : Nat)
    (text : List Char) :
    IsData (.object members) text ⟨.object, offset, text, values.flatten⟩ := by
  refine ⟨⟨rfl, Kind.noConfusion, all.fits⟩, fun integral => ?_⟩
  rw [constant?, all.constantMembers? integral]
  rfl

theorem numberValue?_text {number : Json.Number} (integral : (Json.number number).isIntegral = true) :
    numberValue? number.text = some (.number number) := by
  have parsed := Json.parse_render .compact integral (Nat.zero_le _)
  rw [Json.render] at parsed
  rw [numberValue?, parsed]
  rfl

/-! ## Scalars -/

/-- A string literal is read as an expression, whatever it is decoded to. -/
theorem StringLiteral.readsTree (literal : StringLiteral) (level : Nat) :
    ReadsTree (level + 1) literal.text fun tree =>
      IsSource literal.text tree ∧ constant? tree = literal.read.map Json.string := by
  refine readsTree_plain (fun rest _ => literal.plain rest) literal.token literal.unmarked
    fun offset rest _ => ⟨⟨.string literal.read, offset, literal.text, []⟩, ?_, ?_, ?_⟩
  · have apart : ∀ quote ∈ quotes, (quote == '(') = false ∧ (quote == '[') = false ∧
        (quote == '\x7b') = false := forall_quotes (by decide) (by decide)
    have read := literal.scanned offset rest
    unfold bareOperand
    rw [run_then (run_look _), skip_token offset (literal.token rest)]
    rw [literal.text_append] at read ⊢
    simp only [apart _ literal.quoted, literal.isQuote, Bool.false_eq_true, if_false, if_true]
    exact read
  · exact ⟨rfl, Kind.noConfusion, rfl⟩
  · rw [constant?]

/-- A text between quotes is read as that text. -/
theorem readsTree_string (level : Nat) (value : String) :
    ReadsTree (level + 1) (Json.quote value).toList fun tree =>
      IsSource (Json.quote value).toList tree ∧ constant? tree = some (.string value) := by
  obtain ⟨literal, text, read⟩ := exists_literal value
  have tree := literal.readsTree level
  rwa [text, read] at tree

theorem numeral_opens {text : List Char} (h : Numeral text) :
    ∃ c digits, text = c :: digits ∧ c.isDigit = true := by
  obtain @⟨whole, fraction, exponent, digits, scalable, -, -⟩ := h
  match whole, digits, scalable with
  | c :: whole, digits, _ => exact ⟨c, _, rfl, digits c List.mem_cons_self⟩

private theorem bareOperand_number (g : Grammar) (context : Context) (start : Cursor)
    {text rest : List Char} (h : Numeral text) (ends : Ends rest) (offset : Nat) :
    (bareOperand g context start).run ⟨offset, text ++ rest⟩ =
      some (⟨.number, offset, text, []⟩, ⟨offset + text.length, rest⟩) := by
  have length := numberLength_reads h ends.endsNumeral
  obtain ⟨c, digits, rfl, digit⟩ := numeral_opens h
  have token : StartsToken (c :: digits ++ rest) := (opensPlain_digit digit).token _
  have passed : (pass (c :: digits).length).run ⟨offset, c :: digits ++ rest⟩ =
      some ((), ⟨offset + (c :: digits).length, rest⟩) := by
    rw [run_pass]
    simp [Cursor.advance]
  have read : number.run ⟨offset, c :: digits ++ rest⟩ =
      some (⟨.number, offset, c :: digits, []⟩, ⟨offset + (c :: digits).length, rest⟩) := by
    unfold number
    rw [run_then (run_look _), skip_token offset token, length]
    exact leaf_reads offset token passed
  unfold bareOperand
  rw [run_then (run_look _), skip_token offset token, List.cons_append]
  have none : ∀ d ∈ ['(', '[', '\x7b', '"', '\'', '\x60', '/', '@', '#'], (c == d) = false := by
    intro d mem
    have other : ∀ d ∈ ['(', '[', '\x7b', '"', '\'', '\x60', '/', '@', '#'], d.isDigit = false :=
      forall_mem_of_all (by decide)
    rw [beq_eq_false_iff_ne]
    rintro rfl
    exact Bool.false_ne_true ((other c mem).symm.trans digit)
  simp only [List.forall_mem_cons, List.not_mem_nil, false_implies, implies_true, and_true] at none
  simp only [none, digit, Bool.or_self, Bool.false_eq_true, if_false, Bool.true_or, if_true]
  exact read

theorem readsTree_number (level : Nat) (number : Json.Number) :
    ReadsTree (level + 1) number.text.toList fun tree =>
      IsSource number.text.toList tree ∧ constant? tree = numberValue? number.text := by
  obtain ⟨sign, text, htext, hsign, numeral⟩ := numeral_text number
  obtain ⟨c, digits, opened, digit⟩ := numeral_opens numeral
  have opens := opensPlain_digit digit
  have plain (rest : List Char) : StartsPlain (text ++ rest) := opened ▸ opens.plain _
  rw [htext]
  rcases hsign with rfl | rfl
  · refine readsTree_plain (fun rest _ => plain rest) (fun rest => (plain rest).token)
      (fun rest => ?_) fun offset rest ends => ?_
    · exact opened ▸ opens.unmarked _
    · refine ⟨_, bareOperand_number _ _ _ numeral ends offset, ⟨rfl, Kind.noConfusion, rfl⟩, ?_⟩
      rw [constant?, ← String.ofList_toList (s := number.text), htext]
      rfl
  · have token (rest : List Char) : StartsToken ('-' :: text ++ rest) :=
      ⟨'-', _, rfl, by decide, by decide⟩
    have dash : c ≠ '-' := opens.ne (by decide)
    refine readsTree_operand token (fun rest => ?_) fun offset rest ends => ?_
    · rw [opened]
      simp [markup?, List.isPrefixOf, dash.symm]
    · have sign : prefixSign.run ⟨offset, '-' :: text ++ rest⟩ =
          some ("-", ⟨offset + 1, text ++ rest⟩) := by
        unfold prefixSign
        rw [run_then (run_look _), skip_token offset (token rest), opened]
        split
        · next heq => cases heq
        · next heq => exact absurd (List.cons.inj (List.cons.inj heq).2).1 dash
        · next heq =>
          obtain ⟨rfl, rfl⟩ := List.cons.inj heq
          rfl
        · next heq => cases heq
      have before : signs.run ⟨offset, '-' :: text ++ rest⟩ =
          some ([(⟨offset, '-' :: text ++ rest⟩, "-")], ⟨offset + 1, text ++ rest⟩) := by
        refine many_repeats (.more ?_ (.stop ?_)) (by simp)
        · rw [run_then (run_trivia _), skip_token offset (token rest), run_then (run_get _),
            run_then sign]
          rfl
        · rw [run_then (run_trivia _), skip_token _ (plain rest).token, run_then (run_get _)]
          exact run_stuck _ ((plain rest).unsigned _)
      have magnitude := bareOperand_number (grammar level) Context.inner ⟨offset + 1, text ++ rest⟩
        numeral ends (offset + 1)
      have constant : constant? ⟨.negation, offset, '-' :: text, [⟨.number, offset + 1, text, []⟩]⟩ =
          numberValue? number.text := by
        have whole : "-" ++ String.ofList text = number.text := by
          simp [← String.toList_inj, htext]
        have isNumber : (Kind.number == Kind.number) = true := by decide
        rw [constant?, ← whole]
        dsimp only
        rw [isNumber, if_pos rfl]
        rfl
      refine ⟨⟨.negation, offset, '-' :: text, [⟨.number, offset + 1, text, []⟩]⟩, ?_,
        ⟨rfl, Kind.noConfusion, rfl⟩, constant⟩
      rw [List.singleton_append, operand_signed (offset + 1) before (plain rest)
        (place_reads (offset + 1) (plain rest).token ends magnitude)]
      change some (Tree.mk _ _ (List.take _ _) _, _) = _
      have length : offset + 1 + text.length - offset = ('-' :: text).length := by
        rw [List.length_cons]
        omega
      simp only [length, List.take_left]
      rw [List.length_cons, Nat.add_assoc, Nat.add_comm 1]
      rfl

private inductive IsConstant : Json → List Char → Kind → Prop where
  | yes : IsConstant (.bool true) "true".toList (.boolean true)
  | no : IsConstant (.bool false) "false".toList (.boolean false)
  | nothing : IsConstant .null "null".toList .null

private theorem IsConstant.word {value : Json} {text : List Char} {kind : Kind}
    (h : IsConstant value text kind) : IsWord text := by
  cases h <;> exact ⟨_, _, rfl, by decide, forall_mem_of_all (by decide)⟩

private theorem IsConstant.isData {value : Json} {text : List Char} {kind : Kind}
    (h : IsConstant value text kind) (offset : Nat) :
    IsData value text ⟨kind, offset, text, []⟩ := by
  cases h <;> exact ⟨⟨rfl, Kind.noConfusion, rfl⟩, fun _ => by rw [constant?]; rfl⟩

private theorem IsConstant.plain {value : Json} {text rest : List Char} {kind : Kind}
    (h : IsConstant value text kind) (ends : Ends rest) : StartsPlain (text ++ rest) := by
  obtain ⟨c, name, rfl, wordStart, parts⟩ := h.word
  refine startsPlain_word wordStart parts ends.endsWord ?_
  generalize c :: name = word at h
  cases h <;> decide

private theorem keyword_reads {c : Char} {name rest : List Char} (offset : Nat)
    (start : isWordStart c = true) (parts : ∀ d ∈ name, isWordPart d = true)
    (ends : EndsWord rest) :
    (keyword (String.ofList (c :: name))).run ⟨offset, c :: name ++ rest⟩ =
      some ((), ⟨offset + (c :: name).length, rest⟩) := by
  unfold keyword
  rw [run_then (word_reads offset start parts ends)]
  simp only [ne_eq, not_true_eq_false, if_false]
  rfl

private theorem bareOperand_constant (g : Grammar) (context : Context) (start : Cursor)
    {value : Json} {text rest : List Char} {kind : Kind} (h : IsConstant value text kind)
    (ends : Ends rest) (offset : Nat) :
    (bareOperand g context start).run ⟨offset, text ++ rest⟩ =
      some (⟨kind, offset, text, []⟩, ⟨offset + text.length, rest⟩) := by
  obtain ⟨c, name, rfl, wordStart, parts⟩ := h.word
  have token : StartsToken (c :: name ++ rest) := startsToken_word _ wordStart
  have peeked := peekWord_reads offset wordStart parts ends.endsWord
  have read : (leaf kind (keyword (String.ofList (c :: name)))).run
      ⟨offset, c :: name ++ rest⟩ =
        some (⟨kind, offset, c :: name, []⟩, ⟨offset + (c :: name).length, rest⟩) :=
    leaf_reads offset token (keyword_reads offset wordStart parts ends.endsWord)
  unfold bareOperand
  rw [run_then (run_look _), skip_token offset token]
  generalize hword : c :: name = word at h
  cases h <;> (cases hword; exact (run_then peeked).trans read)

private theorem readsTree_constant (level : Nat) {value : Json} {text : List Char} {kind : Kind}
    (h : IsConstant value text kind) : ReadsTree (level + 1) text (IsData value text) := by
  obtain ⟨c, name, hword, wordStart, -⟩ := h.word
  have dash : c ≠ '-' := by
    rintro rfl
    exact absurd wordStart (by decide)
  have angle : c ≠ '<' := by
    rintro rfl
    exact absurd wordStart (by decide)
  refine readsTree_plain (fun rest ends => h.plain ends) (fun rest => ?_) (fun rest => ?_)
    fun offset rest ends => ?_
  · exact hword ▸ startsToken_word _ wordStart
  · exact hword ▸ markup?_none _ angle dash
  · exact ⟨_, bareOperand_constant _ _ _ h ends offset, h.isData offset⟩

/-! ## Arrays and objects -/

private theorem toList_items (depth : Nat) (items : List Json) :
    (Json.renderItems .compact depth items).toList =
      items.flatMap fun item => ',' :: (Json.render .compact depth item).toList := by
  induction items with
  | nil => simp [Json.renderItems]
  | cons item items ih => simp [Json.renderItems, ih, Json.Layout.newline]

private theorem toList_members (depth : Nat) (members : List (String × Json)) :
    (Json.renderMembers .compact depth members).toList = members.flatMap fun member =>
      ',' :: ((Json.quote member.1).toList ++
        ':' :: (Json.render .compact depth member.2).toList) := by
  induction members with
  | nil => simp [Json.renderMembers]
  | cons member members ih =>
    simp [Json.renderMembers, ih, Json.Layout.newline, Json.Layout.colon]

theorem toList_array (depth : Nat) (item : Json) (items : List Json) :
    (Json.render .compact depth (.array (item :: items))).toList =
      '[' :: ((Json.render .compact (depth + 1) item).toList ++
        ((items.flatMap fun item => ',' :: (Json.render .compact (depth + 1) item).toList) ++
          [']'])) := by
  simp [Json.render, toList_items, Json.Layout.newline]

theorem toList_object (depth : Nat) (member : String × Json)
    (members : List (String × Json)) :
    (Json.render .compact depth (.object (member :: members))).toList =
      '\x7b' :: (((Json.quote member.1).toList ++
          ':' :: (Json.render .compact (depth + 1) member.2).toList) ++
        ((members.flatMap fun member => ',' :: ((Json.quote member.1).toList ++
          ':' :: (Json.render .compact (depth + 1) member.2).toList)) ++ ['\x7d'])) := by
  simp [Json.render, toList_members, Json.Layout.newline, Json.Layout.colon]

/-- The text of a value starts with none of the characters that have a meaning of their own
before an expression. -/
theorem render_opens (depth : Nat) (value : Json) :
    ∃ c rest, (Json.render .compact depth value).toList = c :: rest ∧ c ≠ '.' ∧ isBlank c = false ∧
      c ≠ '/' := by
  match value with
  | .null => exact ⟨'n', ['u', 'l', 'l'], by simp [Json.render], by decide, by decide, by decide⟩
  | .bool true =>
    exact ⟨'t', ['r', 'u', 'e'], by simp [Json.render], by decide, by decide, by decide⟩
  | .bool false =>
    exact ⟨'f', ['a', 'l', 's', 'e'], by simp [Json.render], by decide, by decide, by decide⟩
  | .number number =>
    obtain ⟨sign, text, htext, hsign, numeral⟩ := numeral_text number
    obtain ⟨c, digits, rfl, digit⟩ := numeral_opens numeral
    have opens := opensPlain_digit digit
    rw [Json.render, htext]
    rcases hsign with rfl | rfl
    · refine ⟨c, digits, rfl, ?_, opens.blank, opens.ne (by decide)⟩
      rintro rfl
      exact absurd digit (by decide)
    · exact ⟨'-', _, rfl, by decide, by decide, by decide⟩
  | .string value =>
    rw [Json.render, Json.toList_quote]
    exact ⟨'"', _, rfl, by decide, by decide, by decide⟩
  | .array [] => exact ⟨'[', [']'], by simp [Json.render], by decide, by decide, by decide⟩
  | .array (item :: items) =>
    exact ⟨'[', _, toList_array depth item items, by decide, by decide, by decide⟩
  | .object [] => exact ⟨'\x7b', ['\x7d'], by simp [Json.render], by decide, by decide, by decide⟩
  | .object (member :: members) =>
    exact ⟨'\x7b', _, toList_object depth member members, by decide, by decide, by decide⟩

/-- What is read by its first character alone is read as an expression. -/
private theorem readsTree_opened {level : Nat} {text : List Char} {yields : Tree → Prop}
    {scan : Scan Tree} {c : Char} (opens : OpensPlain c)
    (chosen : ∀ start offset rest, (bareOperand (grammar level) Context.inner start).run
      ⟨offset, c :: rest⟩ = scan.run ⟨offset, c :: rest⟩)
    (opened : text.head? = some c)
    (h : ∀ offset rest, ∃ tree, scan.run ⟨offset, text ++ rest⟩ =
      some (tree, ⟨offset + text.length, rest⟩) ∧ yields tree) :
    ReadsTree (level + 1) text yields := by
  obtain ⟨tail, rfl⟩ : ∃ tail, text = c :: tail := List.head?_eq_some_iff.mp opened
  refine readsTree_plain (fun rest _ => opens.plain _) (fun rest => opens.token _)
    (fun rest => opens.unmarked _) fun offset rest ends => ?_
  rw [List.cons_append, chosen]
  exact h offset rest

/-- An array is read as an expression if it is read from bracket to bracket. -/
theorem readsTree_array {level : Nat} {text : List Char} {yields : Tree → Prop}
    (opened : text.head? = some '[')
    (h : ∀ offset rest, ∃ tree, (array (grammar level)).run ⟨offset, text ++ rest⟩ =
      some (tree, ⟨offset + text.length, rest⟩) ∧ yields tree) :
    ReadsTree (level + 1) text yields := by
  refine readsTree_opened ⟨by decide, by decide, by decide⟩ (fun start offset rest => ?_) opened h
  unfold bareOperand
  rw [run_then (run_look _), skip_token offset ⟨'[', rest, rfl, by decide, by decide⟩]
  rfl

/-- An object is read as an expression if it is read from brace to brace. -/
theorem readsTree_object {level : Nat} {text : List Char} {yields : Tree → Prop}
    (opened : text.head? = some '\x7b')
    (h : ∀ offset rest, ∃ tree, (object (grammar level)).run ⟨offset, text ++ rest⟩ =
      some (tree, ⟨offset + text.length, rest⟩) ∧ yields tree) :
    ReadsTree (level + 1) text yields := by
  refine readsTree_opened ⟨by decide, by decide, by decide⟩ (fun start offset rest => ?_) opened h
  unfold bareOperand
  rw [run_then (run_look _), skip_token offset ⟨'\x7b', rest, rfl, by decide, by decide⟩]
  rfl

structure IsObject (text : List Char) (entries : List Entry) (tree : Tree) : Prop where
  kind : tree.kind = .object
  text : tree.text = text
  members : AreMembers entries tree.children

theorem IsObject.fits {text : List Char} {entries : List Entry} {tree : Tree}
    (h : IsObject text entries tree) : tree.isBroken = false := by
  obtain ⟨kind, start, source, children⟩ := tree
  obtain ⟨rfl, -, members⟩ := h
  exact members.fits

theorem readsAs_of_object {level : Nat} {text : List Char} {entries : List Entry}
    (h : ReadsTree level text (IsObject text entries)) : ReadsAs level text :=
  h.mono fun _ isObject =>
    ⟨isObject.text, by rw [isObject.kind]; exact Kind.noConfusion, isObject.fits⟩

/-- An expression that does not start with dots is read where it could be spread: as an item of an
array or as an argument of a call. -/
theorem ReadsTree.argument {level : Nat} {text : List Char} {yields : Tree → Prop}
    (h : ReadsTree level text yields) {c : Char} {tail : List Char} (opened : text = c :: tail)
    (solid : isBlank c = false) (slash : c ≠ '/') (dot : c ≠ '.') {blanks : List Char}
    (hb : Blanks blanks) :
    Reads Ends (spread (grammar level) <|> (grammar level).expression Context.inner)
      (blanks ++ text) yields := by
  subst opened
  intro offset rest ends
  obtain ⟨tree, read, yielded⟩ := h blanks hb offset rest ends
  refine ⟨tree, ?_, yielded⟩
  have token : StartsToken (c :: tail ++ rest) := ⟨c, tail ++ rest, rfl, solid, slash⟩
  have noSpread : (spread (grammar level)).run ⟨offset, blanks ++ (c :: tail) ++ rest⟩ = none := by
    refine spanned_stuck (run_stuck _ (symbol_stuck ?_ rfl dot.symm))
    rw [List.append_assoc, skip_blanks offset hb token, skip_token _ token]
    rfl
  rw [run_second _ noSpread, read]

theorem level_succ {depth : Nat} {value : Json} {level : Nat}
    (enough : (Json.render .compact depth value).toList.length ≤ level) :
    ∃ less, level = less + 1 := by
  obtain ⟨c, rest, opened, -⟩ := render_opens depth value
  rw [opened, List.length_cons] at enough
  exact ⟨level - 1, by omega⟩

/-- The compact text of a value is read as an expression with that text as its source, which
stands for the value. -/
def ReadsCompact (value : Json) : Prop :=
  ∀ depth level : Nat, (Json.render .compact depth value).toList.length ≤ level →
    ReadsTree level (Json.render .compact depth value).toList
      (IsData value (Json.render .compact depth value).toList)

/-- Values that are no arrays and objects with something in them are read by themselves. They are
the cases of the induction over values in which nothing lies deeper. -/
private theorem readsTree_scalar (depth level : Nat) : ∀ value : Json,
    (∀ item items, value ≠ .array (item :: items)) →
      (∀ member members, value ≠ .object (member :: members)) →
        ReadsTree (level + 1) (Json.render .compact depth value).toList
          (IsData value (Json.render .compact depth value).toList)
  | .null, _, _ => by
    rw [Json.render]
    exact readsTree_constant level .nothing
  | .bool true, _, _ => by
    rw [Json.render]
    exact readsTree_constant level .yes
  | .bool false, _, _ => by
    rw [Json.render]
    exact readsTree_constant level .no
  | .number number, _, _ => by
    rw [Json.render]
    exact (readsTree_number level number).mono fun _ h =>
      ⟨h.1, fun integral => h.2.trans (numberValue?_text integral)⟩
  | .string text, _, _ => by
    rw [Json.render]
    exact (readsTree_string level text).mono fun _ h => ⟨h.1, fun _ => h.2⟩
  | .array [], _, _ => by
    have text : "[]".toList = ['[', ']'] := rfl
    rw [Json.render, text]
    exact readsTree_array rfl fun offset rest =>
      ⟨_, array_empty level offset rest, isData_array (fun _ => []) .nil offset _⟩
  | .object [], _, _ => by
    have text : "\x7b\x7d".toList = ['\x7b', '\x7d'] := rfl
    rw [Json.render, text]
    exact readsTree_object rfl fun offset rest =>
      ⟨_, object_empty _ offset rest, isData_object (fun _ => []) .nil offset _⟩
  | .array (item :: items), h, _ => absurd rfl (h item items)
  | .object (member :: members), _, h => absurd rfl (h member members)

private theorem readsCompact_scalar {value : Json}
    (noItems : ∀ item items, value ≠ .array (item :: items))
    (noMembers : ∀ member members, value ≠ .object (member :: members)) :
    ReadsCompact value := by
  intro depth level enough
  obtain ⟨less, rfl⟩ := level_succ enough
  exact readsTree_scalar depth less value noItems noMembers

private theorem readsCompact_array {item : Json} {items : List Json}
    (each : ∀ other ∈ item :: items, ReadsCompact other) :
    ReadsCompact (.array (item :: items)) := by
  intro depth level enough
  obtain ⟨level, rfl⟩ := level_succ enough
  have text := toList_array depth item items
  have short : ∀ other ∈ item :: items,
      (Json.render .compact (depth + 1) other).toList.length ≤ level := by
    intro other mem
    have least := length_lt_bracketed (fun item => (Json.render .compact (depth + 1) item).toList)
      mem '[' [']']
    rw [text] at enough
    omega
  have inside : ∀ other ∈ item :: items, Reads Ends
      (spread (grammar level) <|> (grammar level).expression Context.inner)
      (Json.render .compact (depth + 1) other).toList
      (IsData other (Json.render .compact (depth + 1) other).toList) := by
    intro other mem
    obtain ⟨c, tail, opened, dot, blank, slash⟩ := render_opens (depth + 1) other
    have value := each other mem (depth + 1) level (short other mem)
    have read := value.argument opened blank slash dot blanks_nil
    rwa [List.nil_append] at read
  -- From here on only the brackets and the items count, not how the whole is written.
  generalize (Json.render .compact depth (.array (item :: items))).toList = whole at text ⊢
  have bracket : ']' ∈ closers := by decide
  refine readsTree_array (by rw [text]; rfl) fun offset rest => ?_
  obtain ⟨children, run, all⟩ := array_reads
    (fun item => (Json.render .compact (depth + 1) item).toList) item items inside
    (fun _ _ rest _ => ends_comma _) (ends_cons bracket) text offset rest
  exact ⟨_, run, isData_array _ all offset whole⟩

private theorem readsCompact_object {member : String × Json} {members : List (String × Json)}
    (each : ∀ other ∈ member :: members, ReadsCompact other.2) :
    ReadsCompact (.object (member :: members)) := by
  intro depth level enough
  obtain ⟨level, rfl⟩ := level_succ enough
  have text := toList_object depth member members
  have short : ∀ other ∈ member :: members,
      (Json.render .compact (depth + 1) other.2).toList.length ≤ level := by
    intro other mem
    have least := length_lt_bracketed (fun member : String × Json => (Json.quote member.1).toList ++
      ':' :: (Json.render .compact (depth + 1) member.2).toList) mem '\x7b' ['\x7d']
    rw [← text, List.length_append, List.length_cons] at least
    omega
  have inside : ∀ other ∈ member :: members, Reads Ends (do
      let before ← many markup
      return before ++ [← objectMember (grammar level)])
      ((Json.quote other.1).toList ++ ':' :: (Json.render .compact (depth + 1) other.2).toList)
      fun trees => ∃ tree, trees = [tree] ∧ IsPair other.1
        (IsData other.2 (Json.render .compact (depth + 1) other.2).toList) tree := by
    intro other mem
    have value := each other mem (depth + 1) level (short other mem) [] blanks_nil
    have read := pair_reads blanks_nil (isKey_quote other.1) value
    rwa [List.nil_append, List.nil_append] at read
  have written : (Json.render .compact depth (.object (member :: members))).toList =
      '\x7b' :: (((Json.quote member.1).toList ++
          ':' :: (Json.render .compact (depth + 1) member.2).toList) ++
        ((members.flatMap fun member => ',' :: ((Json.quote member.1).toList ++
          ':' :: (Json.render .compact (depth + 1) member.2).toList)) ++ ([] ++ ([] ++ ['\x7d'])))) := by
    simpa only [List.nil_append] using text
  -- As for arrays, only the braces and the members count from here on.
  generalize (Json.render .compact depth (.object (member :: members))).toList = whole
    at text written ⊢
  have brace : '\x7d' ∈ closers := by decide
  refine readsTree_object (by rw [text]; rfl) fun offset rest => ?_
  obtain ⟨values, run, all⟩ := object_reads
    (fun member : String × Json => (Json.quote member.1).toList ++
      ':' :: (Json.render .compact (depth + 1) member.2).toList) member members inside
    (fun _ _ rest _ => ends_comma _) blanks_nil (.inr rfl) (ends_cons brace) written offset rest
  exact ⟨_, run, isData_object (fun value => (Json.render .compact (depth + 1) value).toList) all
    offset whole⟩

mutual

theorem readsCompact : ∀ value : Json, ReadsCompact value
  | .array (item :: items) => readsCompact_array (readsCompact_items (item :: items))
  | .object (member :: members) => readsCompact_object (readsCompact_members (member :: members))
  | .null | .bool _ | .number _ | .string _ | .array [] | .object [] =>
    readsCompact_scalar (fun _ _ => nofun) (fun _ _ => nofun)

theorem readsCompact_items : ∀ items : List Json, ∀ item ∈ items, ReadsCompact item
  | [] => List.forall_mem_nil _
  | item :: items => List.forall_mem_cons.mpr ⟨readsCompact item, readsCompact_items items⟩

theorem readsCompact_members :
    ∀ members : List (String × Json), ∀ member ∈ members, ReadsCompact member.2
  | [] => List.forall_mem_nil _
  | (_, value) :: members =>
    List.forall_mem_cons.mpr ⟨readsCompact value, readsCompact_members members⟩

end

/-! ## Characters of values -/

theorem hasForeign_append (first second : List Char) :
    hasForeign (first ++ second) = (hasForeign first || hasForeign second) :=
  List.contains_append

theorem hasForeign_cons (c : Char) (rest : List Char) :
    hasForeign (c :: rest) = ('\x00' == c || hasForeign rest) :=
  List.contains_cons

theorem hasForeign_flatMap {ι : Type} {text : ι → List Char} {items : List ι}
    (h : ∀ item ∈ items, hasForeign (text item) = false) :
    hasForeign (items.flatMap fun item => ',' :: text item) = false := by
  induction items with
  | nil => rfl
  | cons item items ih =>
    rw [List.flatMap_cons, hasForeign_append, hasForeign_cons, h item List.mem_cons_self,
      ih fun other mem => h other (List.mem_cons_of_mem _ mem)]
    rfl

private theorem hasForeign_escapeChar (c : Char) : hasForeign (Json.escapeChar c) = false := by
  have quads : ∀ code < 32, hasForeign ('\\' :: 'u' :: Json.hexQuad code) = false := by
    decide
  unfold Json.escapeChar
  split
  any_goals decide
  split
  · next control => exact quads c.toNat control
  · next control =>
    have other : ('\x00' == c) = false := by
      rw [beq_eq_false_iff_ne]
      rintro rfl
      exact control (by decide)
    rw [hasForeign_cons, other]
    rfl

theorem hasForeign_quote (value : String) : hasForeign (Json.quote value).toList = false := by
  have inside : hasForeign (value.toList.flatMap Json.escapeChar) = false := by
    induction value.toList with
    | nil => rfl
    | cons c chars ih =>
      rw [List.flatMap_cons, hasForeign_append, hasForeign_escapeChar, ih]
      rfl
  rw [Json.toList_quote, hasForeign_cons, hasForeign_append, inside]
  rfl

/-- Nothing in the compact text of a value is foreign to scripts. -/
def Admitted (value : Json) : Prop :=
  ∀ depth : Nat, hasForeign (Json.render .compact depth value).toList = false

private theorem admitted_number (number : Json.Number) : Admitted (.number number) := by
  intro depth
  rw [Json.render, hasForeign, List.contains_eq_mem, decide_eq_false_iff_not]
  intro mem
  rcases chars_number number _ mem with digit | mark
  · exact absurd digit (by decide)
  · exact absurd mark (by decide)

private theorem admitted_array {item : Json} {items : List Json}
    (each : ∀ other ∈ item :: items, Admitted other) : Admitted (.array (item :: items)) := by
  intro depth
  have others := hasForeign_flatMap fun other mem =>
    each other (List.mem_cons_of_mem item mem) (depth + 1)
  rw [toList_array, hasForeign_cons, hasForeign_append, hasForeign_append, others,
    each item List.mem_cons_self]
  rfl

private theorem admitted_object {member : String × Json} {members : List (String × Json)}
    (each : ∀ other ∈ member :: members, Admitted other.2) :
    Admitted (.object (member :: members)) := by
  intro depth
  have text : ∀ other ∈ member :: members, hasForeign ((Json.quote other.1).toList ++
      ':' :: (Json.render .compact (depth + 1) other.2).toList) = false := by
    intro other mem
    rw [hasForeign_append, hasForeign_cons, hasForeign_quote, each other mem]
    rfl
  have others := hasForeign_flatMap fun other mem => text other (List.mem_cons_of_mem member mem)
  rw [toList_object, hasForeign_cons, hasForeign_append, text member List.mem_cons_self,
    hasForeign_append, others]
  rfl

mutual

theorem admitted : ∀ value : Json, Admitted value
  | .array (item :: items) => admitted_array (admitted_items (item :: items))
  | .object (member :: members) => admitted_object (admitted_members (member :: members))
  | .number number => admitted_number number
  | .string text => fun _ => by rw [Json.render]; exact hasForeign_quote text
  | .null | .bool true | .bool false | .array [] | .object [] => fun _ => by
    rw [Json.render]
    decide

theorem admitted_items : ∀ items : List Json, ∀ item ∈ items, Admitted item
  | [] => List.forall_mem_nil _
  | item :: items => List.forall_mem_cons.mpr ⟨admitted item, admitted_items items⟩

theorem admitted_members : ∀ members : List (String × Json), ∀ member ∈ members, Admitted member.2
  | [] => List.forall_mem_nil _
  | (_, value) :: members => List.forall_mem_cons.mpr ⟨admitted value, admitted_members members⟩

end

end BlockLoom.Script
