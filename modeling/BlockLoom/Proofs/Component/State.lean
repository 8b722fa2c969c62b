import BlockLoom.Component.State
import BlockLoom.Proofs.Fields
import BlockLoom.Proofs.Script.Behind
import BlockLoom.Proofs.Script.Statement

/-!
The state of a component through its code. Code that declares a state is read back as
that state and the code after the declaration, in either spelling of the declaration, if
each member is read back as it is written. State that is split off code is stable in this
sense, with one exception: a declaration without members leaves no trace, so that another
one in the rest of the code takes its place.
-/

namespace BlockLoom.State

open Script Script.Scan

/-! ## Members -/

/-- The entry of the object for a member of the state. -/
def entryOf (key : String) (member : StateMember) : Entry :=
  match member.kind with
  | .property => .property key member.code
  | .function => .function key member.code
  | .method => .method key member.code
  | .getter => .getter key member.code

theorem memberOf?_entryOf (key : String) (member : StateMember) :
    memberOf? (entryOf key member) = some (key, member) := by
  obtain ⟨code, kind⟩ := member
  cases kind <;> rfl

/-- The members of the object as they are written, with the entries they stand for. -/
def written (state : State) : List (String × Entry) :=
  state.map fun entry => (renderMember entry.1 entry.2, entryOf entry.1 entry.2)

/-- A state of which every member is read back as it is written, whether the end of the object
follows it or a comma and another member with a key. -/
def Readable (state : State) : Prop :=
  ∀ member ∈ written state, ReadsBefore FollowsMember member

theorem filterMap_entries (state : State) :
    ((written state).map Prod.snd).filterMap memberOf? = state := by
  induction state with
  | nil => rfl
  | cons entry state ih =>
    change (entryOf entry.1 entry.2 :: (written state).map Prod.snd).filterMap memberOf? = _
    rw [List.filterMap_cons, memberOf?_entryOf, ih]

/-- The text of the object, its first member first. -/
theorem toList_renderObject (entry : String × StateMember) (others : State) :
    (renderObject (entry :: others)).toList =
      objectText (renderMember entry.1 entry.2, entryOf entry.1 entry.2) (written others) [] := by
  rw [← toList_braced, renderObject, written, List.map_cons, List.map_cons, List.map_map]
  rfl

/-- The object with the members is read as an expression with just these members. -/
def ReadsBack (state : State) : Prop :=
  ∀ level, 4 * state.renderObject.toList.length ≤ level →
    ReadsTree level state.renderObject.toList
      (IsObject state.renderObject.toList ((written state).map Prod.snd))

/-- A member that is declared is a pair or a method, if it is not a name that stands for itself. -/
private theorem kind_of_memberOf? {member : Tree} {found : String × StateMember}
    (h : memberOf? (Entry.ofMember member) = some found) :
    member.kind = .pair ∨ (∃ role, member.kind = .method role) ∨
      found = (member.source, ⟨member.source, .property⟩) := by
  unfold Entry.ofMember at h
  dsimp only at h
  split at h
  · next kind _ => exact .inl kind
  · exact .inr (.inr (Option.some.inj h).symm)
  · next kind _ => exact .inr (.inl ⟨_, kind⟩)
  · cases h
  · cases h

/-- What is read as one member from a key on is a node with the whole text. -/
private theorem text_of_objectMember {g : Grammar} {key : String} {text code rest : List Char}
    {member : Tree} (keyed : text = (renderKey key).toList ++ code)
    (h : (do
        let before ← many markup
        return before ++ [← objectMember g]).run ⟨0, ' ' :: text ++ rest⟩ =
          some ([member], ⟨0 + (' ' :: text).length, rest⟩)) :
    member.text = text := by
  have isKey := isKey_renderKey key
  have token : StartsToken (text ++ rest) := by
    rw [keyed, List.append_assoc]
    exact isKey.token _
  have skipped : Cursor.skip ⟨0, ' ' :: text ++ rest⟩ = ⟨1, text ++ rest⟩ :=
    skip_blanks 0 blanks_space token
  have plain : (many markup).run ⟨0, ' ' :: text ++ rest⟩ = some ([], ⟨0, ' ' :: text ++ rest⟩) := by
    refine many_stuck (markup_stuck ?_)
    rw [skipped, keyed, List.append_assoc]
    exact isKey.unmarked _
  rw [run_then plain] at h
  obtain ⟨value, stop, read, made⟩ := exists_of_run_bind h
  cases made
  obtain ⟨-, node⟩ := IsNode.objectMember g _ _ _ read
  rw [node, skipped, List.length_cons, Nat.zero_add, Nat.add_sub_cancel, List.take_left]

/-- A member of a readable state may follow another one. -/
theorem follows_written {key : String} {member : StateMember} {rest : List Char}
    (h : ReadsBefore FollowsMember (renderMember key member, entryOf key member))
    (followed : FollowsMember rest) : FollowsMember
      (',' :: (memberText (renderMember key member, entryOf key member) ++ rest)) := by
  have enough : 4 * (renderMember key member).toList.length ≤
      4 * (memberText (renderMember key member, entryOf key member) ++ rest).length + 8 := by
    simp only [memberText, List.length_append, List.length_cons]
    omega
  obtain ⟨members, run, areMembers⟩ := h _ enough 0 rest followed
  obtain ⟨tree, rfl, entry⟩ := List.map_eq_singleton_iff.mp areMembers.entries
  have declares : memberOf? (Entry.ofMember tree) = some (key, member) := by
    rw [entry, memberOf?_entryOf]
  refine .inr ⟨_, rfl, tree, _, run, ?_⟩
  rcases kind_of_memberOf? declares with pair | method | short
  · exact .inl pair
  · exact .inr method
  · -- A name that stands for itself is shorter than a key with a value.
    obtain ⟨rfl, rfl⟩ := Prod.mk.inj short
    have written : (renderMember tree.source ⟨tree.source, .property⟩).toList =
        (renderKey tree.source).toList ++ (':' :: ' ' :: tree.text) := by
      simp [renderMember, Script.renderMember, Tree.source]
    have longer := congrArg List.length ((text_of_objectMember written run).trans written)
    simp only [List.length_append, List.length_cons] at longer
    omega

theorem Readable.readsBack {state : State} (declared : state ≠ []) (readable : Readable state) :
    ReadsBack state := by
  intro level enough
  obtain ⟨entry, others, rfl⟩ := List.exists_cons_of_ne_nil declared
  have next : ∀ member ∈ written others, ∀ rest, FollowsMember rest →
      FollowsMember (',' :: (memberText member ++ rest)) :=
    List.forall_mem_map.mpr fun other mem _ =>
      follows_written (readable _ (List.mem_cons_of_mem _ (List.mem_map_of_mem mem)))
  have closes (rest : List Char) : FollowsMember ([] ++ ([' '] ++ '\x7d' :: rest)) :=
    .inl ⟨rest, rfl⟩
  exact readsTree_before (.inr rfl) (toList_renderObject entry others) readable next closes enough

/-! ## The declaration -/

def Spelling.callee : Spelling → String
  | .hook => "useState"
  | .assignment => "Object.assign"

def Spelling.before : Spelling → List Char
  | .hook => []
  | .assignment => "state, ".toList

/-- The call with the given object, without its semicolon. -/
def Spelling.call (spelling : Spelling) (object : List Char) : List Char :=
  spelling.callee.toList ++ '(' :: (spelling.before ++ object ++ [')'])

theorem Spelling.toList_render (spelling : Spelling) (object : String) :
    (spelling.render object).toList = spelling.call object.toList ++ [';'] := by
  cases spelling <;> (unfold render call callee before; simp)

structure IsDeclaring (entries : List Entry) (call : Tree) : Prop where
  kind : call.kind = .call
  parts : ∃ callee given argument, call.children = [callee, given] ∧
    declaredArgument? callee given.children = some (some argument) ∧
    argument.kind = .object ∧ argument.isBroken = false ∧ Entry.ofObject argument = entries

variable {level : Nat} {object tail : List Char} {entries : List Entry}

private theorem place_hook (reads : ReadsTree level object (IsObject object entries))
    (opened : object = '\x7b' :: tail) (rest : List Char) :
    ∃ tree, (place (grammar level) Context.last).run
        ⟨0, Spelling.hook.call object ++ ';' :: rest⟩ =
          some (tree, ⟨0 + (Spelling.hook.call object).length, ';' :: rest⟩) ∧
      IsDeclaring entries tree := by
  have read := reads.argument opened (by decide) (by decide) (by decide) blanks_nil
  rw [List.nil_append] at read
  have named : isName "useState" = true := by decide
  have free : "useState" ∉ operandWords := by decide
  have hook : hookNames.contains "useState" = true := by decide
  have text : Spelling.hook.call object = "useState".toList ++ '(' :: (object ++ [')']) := by
    unfold Spelling.call Spelling.callee Spelling.before
    rw [List.nil_append]
  rw [text]
  -- What the name is spelled like matters no more, only what has been said of it.
  generalize "useState" = name at named free hook
  obtain ⟨c, tail, word, start, parts⟩ := isWord_of_isName named
  obtain ⟨children, given, all⟩ := callArguments_reads (fun _ => object)
    (fun _ => IsObject object entries) () [] (List.forall_mem_singleton.mpr read) rfl
    (0 + (c :: tail).length) (';' :: rest)
  obtain ⟨argument, rfl, isObject⟩ : ∃ argument, children = [argument] ∧
      IsObject object entries argument := by
    cases all with
    | cons first others =>
      cases others
      exact ⟨_, rfl, first⟩
  have source : String.ofList (c :: tail) = name := by rw [← word, String.ofList_toList]
  have placed := place_nameCall Context.last 0 start parts (source ▸ free) given
  rw [word]
  refine ⟨_, placed, rfl, _, _, argument, rfl, ?_, isObject.kind, isObject.fits,
    isObject.members.entries⟩
  unfold declaredArgument?
  simp only [Tree.source, source, hook, if_true, List.head?_cons]

private theorem assignmentArguments_reads
    (reads : ReadsTree (level + 1) object (IsObject object entries))
    (opened : object = '\x7b' :: tail) {written : List Char}
    (h : written = '(' :: ("state".toList ++ ((',' :: (' ' :: object)) ++ [')'])))
    (offset : Nat) (rest : List Char) :
    ∃ state argument, (callArguments (grammar (level + 1))).run ⟨offset, written ++ rest⟩ =
        some (⟨.arguments, offset, written, [state, argument]⟩, ⟨offset + written.length, rest⟩) ∧
      IsSource "state".toList state ∧ IsObject object entries argument := by
  have named : isName "state" = true := by decide
  have free : "state" ∉ operandWords := by decide
  have word : "state".toList = 's' :: "tate".toList := rfl
  have last := reads.argument opened (by decide) (by decide) (by decide) blanks_space
  have first := readsAs_properties level (isWord_of_isName named)
    (by rwa [String.ofList_toList]) (List.forall_mem_nil _)
  rw [behindDots, List.flatMap_nil, List.append_nil] at first
  have first := first.argument word (by decide) (by decide) (by decide) blanks_nil
  rw [List.nil_append] at first
  have separated : written = '(' :: ("state".toList ++
      ([(' ' :: object, IsObject object entries)].flatMap (fun item => ',' :: item.1) ++
        [')'])) := by
    rw [h, List.flatMap_singleton]
  obtain ⟨children, read, all⟩ := callArguments_reads Prod.fst Prod.snd
    ("state".toList, IsSource "state".toList) [(' ' :: object, IsObject object entries)]
    (List.forall_mem_cons.mpr ⟨first, List.forall_mem_singleton.mpr last⟩) separated offset rest
  obtain ⟨state, argument, rfl, isState, isObject⟩ : ∃ state argument,
      children = [state, argument] ∧ IsSource "state".toList state ∧
        IsObject object entries argument := by
    cases all with
    | cons isState others =>
      cases others with
      | cons isObject others =>
        cases others
        exact ⟨_, _, rfl, isState, isObject⟩
  exact ⟨state, argument, read, isState, isObject⟩

private theorem place_assignment
    (reads : ReadsTree (level + 1) object (IsObject object entries))
    (opened : object = '\x7b' :: tail) (rest : List Char) :
    ∃ tree, (place (grammar (level + 1)) Context.last).run
        ⟨0, Spelling.assignment.call object ++ ';' :: rest⟩ =
          some (tree, ⟨0 + (Spelling.assignment.call object).length, ';' :: rest⟩) ∧
      IsDeclaring entries tree := by
  have named : isName "Object" = true := by decide
  have assign : isName "assign" = true := by decide
  have free : "Object" ∉ operandWords := by decide
  have text : Spelling.assignment.call object = ("Object".toList ++ '.' :: "assign".toList) ++
      '(' :: ("state".toList ++ ((',' :: (' ' :: object)) ++ [')'])) := by
    unfold Spelling.call Spelling.callee Spelling.before
    simp
  have noHook : hookNames.contains
      (String.ofList ("Object".toList ++ '.' :: "assign".toList)) = false := by decide
  obtain ⟨c, name, word, start, parts⟩ := isWord_of_isName named
  have source : String.ofList (c :: name) = "Object" := by rw [← word, String.ofList_toList]
  rw [word] at text noHook
  obtain ⟨state, argument, given, isState, isObject⟩ := assignmentArguments_reads reads opened rfl
    (0 + (c :: name ++ '.' :: "assign".toList).length) (';' :: rest)
  have placed := place_propertyCall Context.last 0 start parts (source ▸ free)
    (isWord_of_isName assign) given
  rw [text]
  refine ⟨_, placed, rfl, _, _, argument, rfl, ?_, isObject.kind, isObject.fits,
    isObject.members.entries⟩
  unfold declaredArgument?
  simp only [Tree.source, noHook, isAssign, source, String.ofList_toList, isState.text,
    beq_self_eq_true, Bool.and_self, if_true, if_false, Bool.false_eq_true]

/-- The call is a name that goes on as an operand. -/
private theorem Spelling.call_opens (spelling : Spelling) (object : List Char) :
    ∃ c name d tail, spelling.call object = c :: name ++ d :: tail ∧ isWordStart c = true ∧
      (∀ d ∈ name, isWordPart d = true) ∧
      String.ofList (c :: name) ∉ statementWords ++ prefixWords ∧ (d = '(' ∨ d = '.') := by
  obtain ⟨first, d, tail, text, named, free, goes⟩ : ∃ first d tail,
      spelling.call object = String.toList first ++ d :: tail ∧ isName first = true ∧
        first ∉ statementWords ++ prefixWords ∧ (d = '(' ∨ d = '.') := by
    unfold call callee
    cases spelling with
    | hook => exact ⟨"useState", '(', _, rfl, by decide, by decide, .inl rfl⟩
    | assignment =>
      have text : "Object.assign".toList = "Object".toList ++ '.' :: "assign".toList := rfl
      exact ⟨"Object", '.', _, by rw [text, List.append_assoc]; rfl, by decide, by decide,
        .inr rfl⟩
  obtain ⟨c, name, word, start, parts⟩ := isWord_of_isName named
  have source : String.ofList (c :: name) = first := by rw [← word, String.ofList_toList]
  exact ⟨c, name, d, tail, word ▸ text, start, parts, source ▸ free, goes⟩

/-- The declaration is a statement of its own, whatever follows it. -/
theorem statement_declaring (spelling : Spelling)
    (reads : ReadsTree (level + 1) object (IsObject object entries))
    (opened : object = '\x7b' :: tail) (rest : List Char) :
    ∃ call, (grammar (level + 3)).statement.run ⟨0, spelling.call object ++ ';' :: rest⟩ =
        some (⟨.expressionStatement, 0, spelling.call object ++ [';'], [call]⟩,
          ⟨(spelling.call object).length + 1, rest⟩) ∧
      IsDeclaring entries call := by
  obtain ⟨c, name, d, others, text, start, parts, free, goes⟩ := spelling.call_opens object
  obtain ⟨call, placed, declaring⟩ : ∃ call, (place (grammar (level + 1)) Context.last).run
      ⟨0, spelling.call object ++ ';' :: rest⟩ =
        some (call, ⟨0 + (spelling.call object).length, ';' :: rest⟩) ∧
      IsDeclaring entries call := by
    cases spelling with
    | hook => exact place_hook reads opened rest
    | assignment => exact place_assignment reads opened rest
  have read := statement_reads 0 text start parts free goes placed
  rw [Nat.zero_add] at read
  exact ⟨call, read, declaring⟩

/-! ## Splitting -/

/-- A declaration that comes first is the one that is found. -/
theorem findDeclaration?_first {kind : Kind} {call : Tree} (source text : List Char)
    (others : List Tree) (h : IsDeclaring entries call) (other : kind ≠ .call)
    (inner : kind ≠ .expressionStatement) :
    ∃ argument, findDeclaration? none
        ⟨kind, 0, source, ⟨.expressionStatement, 0, text, [call]⟩ :: others⟩ =
          some ⟨0, text.length, some argument⟩ ∧
      argument.isBroken = false ∧ Entry.ofObject argument = entries := by
  obtain ⟨called, start, callText, children⟩ := call
  obtain ⟨rfl, callee, given, argument, rfl, declares, isObject, fits, members⟩ := h
  have found (statement : Tree) : declaration? (some statement)
      ⟨.call, start, callText, [callee, given]⟩ =
        some ⟨statement.start, statement.stop, some argument⟩ := by
    unfold declaration?
    simp [declares, isObject]
  have none {kind : Kind} (other : kind ≠ .call) (start : Nat) (text : List Char)
      (children : List Tree) : declaration? none ⟨kind, start, text, children⟩ = none := by
    unfold declaration?
    split
    · next heq _ => exact absurd heq other
    · rfl
  refine ⟨argument, ?_, fits, members⟩
  rw [findDeclaration?, none other, Option.none_or, if_neg (by simpa using inner),
    findDeclarationAmong?, findDeclaration?, none Kind.noConfusion, Option.none_or,
    beq_self_eq_true, if_pos rfl, findDeclarationAmong?, findDeclaration?, found, Option.some_or,
    Option.some_or, Option.some_or]
  simp [Tree.stop]

/-! ## Reading back -/

/-- Code that starts with the declaration of a state is split after it. -/
theorem split_declaring (spelling : Spelling) {state : State} (declared : state ≠ [])
    (distinct : Fields.Distinct state) (back : ReadsBack state) {text : String}
    {rest : List Char}
    (h : text.toList = spelling.call state.renderObject.toList ++ ';' :: rest) :
    split text = (state, Text.trimmed? (String.ofList rest)) := by
  obtain ⟨c, name, d, tail, word, start, -, -, -⟩ := spelling.call_opens state.renderObject.toList
  obtain ⟨more, opened⟩ : ∃ more, text.toList = c :: more := ⟨_, by rw [h, word]; rfl⟩
  have short : state.renderObject.toList.length ≤ text.toList.length := by
    rw [h]
    simp only [Spelling.call, List.length_append, List.length_cons]
    omega
  have enough : 4 * state.renderObject.toList.length ≤ 4 * text.toList.length + 5 + 1 := by omega
  obtain ⟨brace, object⟩ : ∃ tail, state.renderObject.toList = '\x7b' :: tail := by
    obtain ⟨entry, others, rfl⟩ := List.exists_cons_of_ne_nil declared
    exact ⟨_, toList_renderObject entry others⟩
  obtain ⟨call, statement, declaring⟩ :=
    statement_declaring spelling (back _ enough) object rest
  rw [← h, opened] at statement
  obtain ⟨kind, source, others, program, noCall, noStatement⟩ := readProgram_first start statement
  rw [← opened] at program
  obtain ⟨argument, found, fits, members⟩ :=
    findDeclaration?_first source (spelling.call state.renderObject.toList ++ [';']) others
      declaring noCall noStatement
  have after :
      text.toList.drop (spelling.call state.renderObject.toList ++ [';']).length = rest := by
    have shape : text.toList = (spelling.call state.renderObject.toList ++ [';']) ++ rest := by
      rw [h, List.append_assoc]
      rfl
    rw [shape, List.drop_left]
  have trimmed : Text.trimmed? (String.ofList ('\n' :: Text.trimList rest)) =
      Text.trimmed? (String.ofList rest) := by
    refine Text.trimmed?_congr ?_
    rw [String.toList_ofList, String.toList_ofList, Text.trimList_blank (by decide), Text.trimList_trimList]
  have before : Text.trimList (text.toList.take 0) = [] := rfl
  unfold split
  dsimp only
  rw [program, found]
  simp only [fits, Bool.false_eq_true, if_false, members, filterMap_entries,
    Fields.ofEntries_of_distinct distinct, after, before, List.nil_append, trimmed]

/-- A state that is read back is split off again from the code that it is written to. -/
theorem split_written (spelling : Spelling) {state : State} (declared : state ≠ [])
    (distinct : Fields.Distinct state) (back : ReadsBack state) (onMount : Option String) :
    ∃ text, render spelling state onMount = some text ∧
      split text = (state, onMount.bind Text.trimmed?) := by
  have filled : state.isEmpty = false := by simpa using declared
  have text := spelling.toList_render state.renderObject
  unfold render
  rw [filled]
  cases mounted : onMount.bind Text.trimmed? with
  | none =>
    refine ⟨spelling.render state.renderObject, rfl, ?_⟩
    rw [split_declaring spelling declared distinct back text]
    rfl
  | some left =>
    obtain ⟨code, rfl, inner⟩ := Option.bind_eq_some_iff.mp mounted
    have trimmed : Text.trimmed? (String.ofList ('\n' :: left.toList)) = some left := by
      rw [← Text.trimmed?_of_trimmed? inner]
      refine Text.trimmed?_congr ?_
      rw [String.toList_ofList, Text.trimList_blank (by decide)]
    have whole : (spelling.render state.renderObject ++ "\n" ++ left).toList =
        spelling.call state.renderObject.toList ++ ';' :: ('\n' :: left.toList) := by
      simp [text]
    refine ⟨spelling.render state.renderObject ++ "\n" ++ left, ?_, ?_⟩
    · simp
    · rw [split_declaring spelling declared distinct back whole, trimmed]

/-- A state is split off again from the code that it is written to. -/
theorem split_render (spelling : Spelling) {state : State} (declared : state ≠ [])
    (distinct : Fields.Distinct state) (readable : Readable state) (onMount : Option String) :
    ∃ text, render spelling state onMount = some text ∧
      split text = (state, onMount.bind Text.trimmed?) :=
  split_written spelling declared distinct (readable.readsBack declared) onMount

theorem trimmed?_left {code left : String} (h : (split code).2 = some left) :
    Text.trimmed? left = some left := by
  obtain ⟨text, trimmed⟩ : ∃ text, (split code).2 = Text.trimmed? text := by
    unfold split
    dsimp only
    split <;>
      (dsimp only
       exact ⟨_, rfl⟩)
  exact Text.trimmed?_of_trimmed? (trimmed.symm.trans h)

/-- Code that declares no state. -/
def Stateless (code : String) : Prop :=
  findDeclaration? none (readProgram code.toList) = none

theorem Stateless.split {code : String} (h : Stateless code) :
    State.split code = ([], Text.trimmed? code) := by
  unfold State.split
  dsimp only
  rw [h]

/-- Code of which the state and the rest are found again in the code that is written for
them; nothing is written only if there are neither. -/
structure IsStable (spelling : Spelling) (code : String) : Prop where
  written : ∀ text, render spelling (split code).1 (split code).2 = some text →
    split text = split code
  unwritten : render spelling (split code).1 (split code).2 = none → split code = ([], none)

theorem distinct_split (code : String) : Fields.Distinct (split code).1 := by
  unfold split
  dsimp only
  split
  · exact Fields.distinct_nil
  · exact Fields.distinct_ofEntries _

theorem bind_trimmed?_split (code : String) :
    (split code).2.bind Text.trimmed? = (split code).2 := by
  cases left : (split code).2 with
  | none => rfl
  | some inner => rw [Option.bind_some, trimmed?_left left]

/-- Without a state only the rest is written. -/
theorem render_nil (spelling : Spelling) (onMount : Option String) :
    render spelling [] onMount = onMount.bind Text.trimmed? := by
  unfold render
  cases onMount.bind Text.trimmed? <;> rfl

/-- A state is written first. -/
theorem render_of_declared (spelling : Spelling) {state : State} (declared : state ≠ [])
    (onMount : Option String) :
    ∃ rest, render spelling state onMount = some (spelling.render state.renderObject ++ rest) := by
  have filled : state.isEmpty = false := by simpa using declared
  unfold render
  rw [filled]
  cases onMount.bind Text.trimmed? with
  | none => exact ⟨"", by simp⟩
  | some left => exact ⟨"\n" ++ left, by simp [String.append_assoc]⟩

/-- What is written is not blank. -/
theorem isBlankText_of_render {spelling : Spelling} {state : State} {onMount : Option String}
    {text : String} (h : render spelling state onMount = some text) :
    Text.isBlankText text = false := by
  by_cases declared : state = []
  · rw [declared, render_nil] at h
    obtain ⟨code, -, trimmed⟩ := Option.bind_eq_some_iff.mp h
    exact Text.isBlankText_of_trimmed? trimmed
  · obtain ⟨rest, written⟩ := render_of_declared spelling declared onMount
    obtain rfl := Option.some.inj (h.symm.trans written)
    rw [Text.isBlankText, String.toList_append, spelling.toList_render, Spelling.call]
    cases spelling <;> rfl

/-- Whether anything is written does not depend on the spelling. -/
theorem render_eq_none_iff {spelling : Spelling} {state : State} {onMount : Option String} :
    render spelling state onMount = none ↔ state = [] ∧ onMount.bind Text.trimmed? = none := by
  by_cases declared : state = []
  · rw [declared, render_nil]
    exact (and_iff_right rfl).symm
  · obtain ⟨rest, written⟩ := render_of_declared spelling declared onMount
    rw [written]
    exact iff_of_false nofun fun nothing => declared nothing.1

/-- Code is stable if the members of its state are read back as they are written, and, if there are
none, the rest declares no state in their place: a declaration without members is not written again,
and the next one would be found instead. -/
theorem isStable_split (spelling : Spelling) (code : String) (readable : Readable (split code).1)
    (single : (split code).1 = [] → ∀ left, (split code).2 = some left → Stateless left) :
    IsStable spelling code := by
  have trimmed := bind_trimmed?_split code
  by_cases declared : (split code).1 = []
  · have rendered : render spelling (split code).1 (split code).2 = (split code).2 := by
      rw [declared, render_nil, trimmed]
    -- The rest is written as it is, so that it must not be mistaken for a declaration.
    refine ⟨fun left found => ?_, fun nothing => Prod.ext declared (rendered.symm.trans nothing)⟩
    rw [rendered] at found
    rw [(single declared left found).split, trimmed?_left found]
    exact Prod.ext declared.symm found.symm
  · obtain ⟨text, written, read⟩ :=
      split_render spelling declared (distinct_split code) readable (split code).2
    refine ⟨fun other same => ?_, fun nothing => nomatch written.symm.trans nothing⟩
    obtain rfl : text = other := Option.some.inj (written.symm.trans same)
    rw [read, trimmed]

/-! ## Code that there may be -/

/-- What code is split into, if there is any. -/
def splitCode (code : Option String) : State × Option String :=
  (code.map split).getD ([], none)

theorem distinct_splitCode (code : Option String) : Fields.Distinct (splitCode code).1 := by
  cases code with
  | none => exact Fields.distinct_nil
  | some code => exact distinct_split code

/-- The state and the rest of code, which may be missing, are found again in the code that is
written for them, which may be missing too. -/
theorem splitCode_render (spelling : Spelling) (code : Option String)
    (readable : Readable (splitCode code).1)
    (single : (splitCode code).1 = [] → ∀ left, (splitCode code).2 = some left → Stateless left) :
    splitCode (render spelling (splitCode code).1 (splitCode code).2) = splitCode code := by
  have trimmed : (splitCode code).2.bind Text.trimmed? = (splitCode code).2 := by
    cases code with
    | none => rfl
    | some code => exact bind_trimmed?_split code
  by_cases declared : (splitCode code).1 = []
  · rw [declared, render_nil, trimmed]
    cases left : (splitCode code).2 with
    | none => exact Prod.ext declared.symm left.symm
    | some inner =>
      rw [left, Option.bind_some] at trimmed
      refine ((single declared inner left).split.trans ?_ : split inner = _)
      exact Prod.ext declared.symm (trimmed.trans left.symm)
  · obtain ⟨text, written, read⟩ :=
      split_render spelling declared (distinct_splitCode code) readable (splitCode code).2
    rw [written]
    exact read.trans (by rw [trimmed])

def counterCode : String := "useState({ shown: true, total: cart.total }); refresh()"

set_option maxRecDepth 100000 in
private theorem split_counterCode : split counterCode =
    ([("shown", ⟨"true", .property⟩), ("total", ⟨"cart.total", .property⟩)], some "refresh()") := by
  decide +kernel

private theorem readable_counterCode : Readable (split counterCode).1 := by
  have shown : Json.compact (.bool true) = "true" := by decide
  have total : ".".intercalate ["cart", "total"] = "cart.total" := by decide
  have names : ∀ property ∈ ["total"], isName property = true := by decide
  have first := ((readsVerbatim_compact (.bool true)).member "shown").before
  have second := ((@readsVerbatim_properties "cart" ["total"] (by decide) (by decide)
    names).member "total").before
  rw [shown] at first
  rw [total] at second
  rw [split_counterCode]
  unfold Readable written
  simp only [List.map_cons, List.map_nil, renderMember, entryOf, List.forall_mem_cons]
  exact ⟨first, second, List.forall_mem_nil _⟩

theorem isStable_counterCode :
    Readable (split counterCode).1 ∧ (split counterCode).1 ≠ [] ∧
      IsStable .hook counterCode ∧ IsStable .assignment counterCode := by
  have declared : (split counterCode).1 ≠ [] := by
    rw [split_counterCode]
    exact List.cons_ne_nil _ _
  have single : (split counterCode).1 = [] → ∀ left, (split counterCode).2 = some left →
      Stateless left := fun none => (declared none).elim
  have stable (spelling : Spelling) : IsStable spelling counterCode := by
    apply isStable_split
    · exact readable_counterCode
    · exact single
  exact ⟨readable_counterCode, declared, stable _, stable _⟩

def doubleCode : String := "useState({}); useState({a: 1})"

set_option maxRecDepth 100000 in
private theorem split_doubleCode : split doubleCode = ([], some "useState({a: 1})") := by
  decide +kernel

set_option maxRecDepth 100000 in
/-- The declaration without members is not written, so that the other one is found. -/
theorem not_isStable_doubleCode :
    ¬ IsStable .hook doubleCode ∧ ¬ IsStable .assignment doubleCode := by
  have rendered : ∀ spelling, render spelling (split doubleCode).1 (split doubleCode).2 =
      some "useState({a: 1})" := by
    rw [split_doubleCode]
    rintro (_ | _) <;> decide +kernel
  have unequal : split "useState({a: 1})" ≠ split doubleCode := by
    rw [split_doubleCode]
    decide +kernel
  exact ⟨fun stable => unequal (stable.written _ (rendered _)),
    fun stable => unequal (stable.written _ (rendered _))⟩

end BlockLoom.State
