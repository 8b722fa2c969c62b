import BlockLoom.Proofs.Script.Constant
import BlockLoom.Proofs.Text.Blank

/-!
Objects that are written and read back. An object whose values are each read as
they stand is read as the list of its members, whether it is written on its own or
as the value of a member. A constant that is written as JSON is read as its value.
-/

namespace BlockLoom.Script

open Scan

/-! ## Whole texts -/

private theorem blanks_line : Blanks ['\n'] := by
  intro c mem
  rw [List.mem_singleton.mp mem]
  decide

private theorem ends_line : Ends ['\n', ')'] :=
  have closer : ')' ∈ closers := by decide
  ends_blanks blanks_line closer []

/-- A single expression between parentheses and line breaks. -/
theorem group_reads {g : Grammar} {text : List Char} {tree : Tree}
    (token : ∀ rest, StartsToken (text ++ rest))
    (h : (g.expression Context.inner).run ⟨2, text ++ ['\n', ')']⟩ =
      some (tree, ⟨2 + text.length, ['\n', ')']⟩)) :
    ∃ whole, (group g).run ⟨0, '(' :: '\n' :: (text ++ ['\n', ')'])⟩ =
      some (⟨.group, 0, whole, [tree]⟩, ⟨2 + text.length + 2, []⟩) := by
  have closing := ends_line.closing (2 + text.length)
  have opened : StartsToken ('(' :: '\n' :: (text ++ ['\n', ')'])) :=
    ⟨'(', _, rfl, by decide, by decide⟩
  have first : (symbol "(").run ⟨0, '(' :: '\n' :: (text ++ ['\n', ')'])⟩ =
      some ((), ⟨1, '\n' :: (text ++ ['\n', ')'])⟩) := symbol_next 0 opened rfl
  have skipped : Cursor.skip ⟨1, '\n' :: (text ++ ['\n', ')'])⟩ = ⟨2, text ++ ['\n', ')']⟩ :=
    skip_blanks 1 blanks_line (token _)
  have single : (expressions g Context.inner).run ⟨1, '\n' :: (text ++ ['\n', ')'])⟩ =
      some (tree, ⟨2 + text.length, ['\n', ')']⟩) := by
    have comma : (symbol ",").run ⟨2 + text.length, ['\n', ')']⟩ = none := by
      refine symbol_stuck ?_ rfl (show ',' ≠ ')' by decide)
      have skipped : Cursor.skip ⟨2 + text.length, ['\n', ')']⟩ = ⟨2 + text.length + 1, [')']⟩ :=
        skip_blanks _ blanks_line (startsToken_closer [] (by decide))
      rw [skipped]
      rfl
    have items : (separated (g.expression Context.inner) ",").run ⟨2, text ++ ['\n', ')']⟩ =
        some ([tree], ⟨2 + text.length, ['\n', ')']⟩) := by
      unfold separated
      rw [run_then h, run_then (many_stuck (run_stuck _ comma))]
      rfl
    unfold expressions
    rw [run_then (run_trivia _), skipped, run_then (run_get _), run_then items]
    rfl
  have untyped : (optional? (leaf .other (ascription g))).run ⟨2 + text.length, ['\n', ')']⟩ =
      some (none, ⟨2 + text.length, ['\n', ')']⟩) := by
    refine optional?_stuck (leaf_stuck ?_)
    unfold ascription
    exact run_stuck _ (closing.skip.symbol (by decide) (by decide))
  have last : (symbol ")").run ⟨2 + text.length, ['\n', ')']⟩ =
      some ((), ⟨2 + text.length + 2, []⟩) :=
    symbol_reads _ blanks_line (startsToken_closer [] (by decide)) rfl
  unfold group spanned
  have inside : (do
      symbol "("
      let inner ← expressions g Context.inner
      let type ← optional? (leaf .other (ascription g))
      symbol ")"
      return inner :: type.toList).run ⟨0, '(' :: '\n' :: (text ++ ['\n', ')'])⟩ =
        some ([tree], ⟨2 + text.length + 2, []⟩) := by
    rw [run_then first, run_then single, run_then untyped, run_then last]
    rfl
  rw [run_then (run_trivia _), skip_token 0 opened, run_then (run_get _), run_then inside]
  exact ⟨_, rfl⟩

/-- A text that is read as an expression is read between parentheses from end to end. -/
theorem readWhole_reads {text : List Char} {yields : Tree → Prop}
    (token : ∀ rest, StartsToken (text ++ rest)) (admitted : hasForeign text = false)
    (reads : ∀ level, 4 * text.length ≤ level →
      Reads Ends ((grammar level).expression Context.inner) text yields) :
    ∃ tree, readWhole text = some tree ∧ yields tree := by
  have source : "(\n".toList ++ text ++ "\n)".toList = '(' :: '\n' :: (text ++ ['\n', ')']) := by
    simp
  have enough : 4 * text.length ≤ 4 * ('(' :: '\n' :: (text ++ ['\n', ')'])).length + 8 := by
    simp only [List.length_cons, List.length_append]
    omega
  obtain ⟨tree, read, yielded⟩ := reads _ enough 2 ['\n', ')'] ends_line
  obtain ⟨whole, grouped⟩ := group_reads token read
  refine ⟨tree, ?_, yielded⟩
  unfold readWhole
  simp only [source, admitted, Bool.false_eq_true, if_false]
  rw [grammarFor, grouped]
  rfl

/-- A text without white space at its ends that is read as an expression is read whole. -/
theorem readExpression?_reads {code : String} {yields : Tree → Prop}
    (trimmed : Text.trimList code.toList = code.toList)
    (token : ∀ rest, StartsToken (code.toList ++ rest)) (admitted : hasForeign code.toList = false)
    (reads : ∀ level, 4 * code.toList.length ≤ level → ReadsTree level code.toList yields) :
    ∃ tree, readExpression? code = some tree ∧ yields tree := by
  rw [readExpression?, trimmed]
  exact readWhole_reads token admitted fun level enough => reads level enough [] blanks_nil

theorem readObject?_reads {code : String} {entries : List Entry}
    (trimmed : Text.trimList code.toList = code.toList)
    (token : ∀ rest, StartsToken (code.toList ++ rest)) (admitted : hasForeign code.toList = false)
    (reads : ∀ level, 4 * code.toList.length ≤ level →
      ReadsTree level code.toList (IsObject code.toList entries)) :
    readObject? code = some entries := by
  obtain ⟨tree, read, isObject⟩ := readExpression?_reads trimmed token admitted reads
  simp [readObject?, read, isObject.kind, Entry.ofObject, isObject.members.entries]

/-! ## Values of members -/

/-- A text after the value of a member: the comma behind it or the end of the object. -/
def EndsMember (text : List Char) : Prop :=
  ∃ rest, text = ',' :: rest ∨ text = ' ' :: '\x7d' :: rest

theorem EndsMember.ends {text : List Char} (h : EndsMember text) : Ends text := by
  have brace : '\x7d' ∈ closers := by decide
  obtain ⟨rest, rfl | rfl⟩ := h
  · exact ends_comma rest
  · exact ends_blanks blanks_space brace rest

/-- An expression that is read back verbatim as the value of a member: whatever member
follows, the grammar reads exactly this source, and what it reads is no function. -/
structure ReadsVerbatim (code : String) : Prop where
  admitted : hasForeign code.toList = false
  reads : ∀ level, 4 * code.toList.length ≤ level →
    Reads EndsMember ((grammar level).expression Context.inner) (' ' :: code.toList)
      (IsSource code.toList)

theorem ReadsAs.readsVerbatim {code : String} (admitted : hasForeign code.toList = false)
    (reads : ∀ level, 4 * code.toList.length ≤ level → ReadsAs level code.toList) :
    ReadsVerbatim code :=
  ⟨admitted, fun level enough offset rest ends =>
    reads level enough [' '] blanks_space offset rest ends.ends⟩

/-- The compact text of a value is read back verbatim. -/
theorem readsVerbatim_compact (value : Json) : ReadsVerbatim value.compact :=
  ReadsAs.readsVerbatim (admitted value 0) fun level enough =>
    (readsCompact value 0 level (by unfold Json.compact at enough; omega)).mono
      fun _ data => data.source

/-! ## Members -/

theorem hasForeign_name {key : String} (h : isName key = true) :
    hasForeign key.toList = false := by
  rw [hasForeign, List.contains_eq_mem, decide_eq_false_iff_not]
  intro mem
  unfold isName at h
  cases hkey : key.toList with
  | nil => simp [hkey] at mem
  | cons c rest =>
    rw [hkey] at h mem
    simp only [Bool.and_eq_true, List.all_eq_true] at h
    rcases List.mem_cons.mp mem with rfl | mem
    · exact absurd (isWordStart_of_isNameStart h.1) (by decide)
    · exact absurd (isWordPart_of_isNamePart (h.2 _ mem)) (by decide)

theorem hasForeign_renderKey (key : String) : hasForeign (renderKey key).toList = false := by
  unfold renderKey
  split
  · next name => exact hasForeign_name name
  · exact hasForeign_quote key

theorem isKey_renderKey (key : String) : IsKey (renderKey key).toList key := by
  unfold renderKey
  split
  · next name => exact isKey_name name
  · exact isKey_quote key

def memberText (member : String × Entry) : List Char :=
  ' ' :: member.1.toList

/-- A member that is read back as its entry before any of the given texts. -/
def ReadsBefore (follows : List Char → Prop) (member : String × Entry) : Prop :=
  ∀ level, 4 * member.1.toList.length ≤ level → Reads follows (do
      let before ← many markup
      return before ++ [← objectMember (grammar level)]) (memberText member) (AreMembers [member.2])

theorem hasForeign_renderMember {code : String} (h : hasForeign code.toList = false)
    (key : String) : hasForeign (renderMember key code).toList = false := by
  simp [renderMember, hasForeign_append, hasForeign_cons, hasForeign_renderKey key, h]

/-- A key before a value makes a member with that key. What its entry is depends on the value. -/
theorem readsBefore_pair {follows : List Char → Prop} {yields : Tree → Prop} {code : String}
    (h : ∀ level, 4 * code.toList.length ≤ level →
      Reads follows ((grammar level).expression Context.inner) (' ' :: code.toList) yields)
    (key : String) {entry : Entry}
    (makes : ∀ member, IsPair key yields member → AreMembers [entry] [member]) :
    ReadsBefore follows (renderMember key code, entry) := by
  intro level enough offset rest followed
  have text : (renderMember key code).toList =
      (renderKey key).toList ++ ':' :: (' ' :: code.toList) := by
    simp [renderMember]
  have short : 4 * code.toList.length ≤ level := by
    dsimp only at enough
    rw [text] at enough
    simp only [List.length_append, List.length_cons] at enough
    omega
  have read := pair_reads blanks_space (isKey_renderKey key) (h level short)
  rw [← text] at read
  obtain ⟨_, run, member, rfl, pair⟩ := read offset rest followed
  exact ⟨[member], run, makes member pair⟩

theorem readsBefore_property {follows : List Char → Prop} {code : String}
    (h : ∀ level, 4 * code.toList.length ≤ level →
      Reads follows ((grammar level).expression Context.inner) (' ' :: code.toList)
        (IsSource code.toList)) (key : String) :
    ReadsBefore follows (renderMember key code, .property key code) :=
  readsBefore_pair h key fun _ pair => String.ofList_toList (s := code) ▸ pair.property

/-- A member of an object that is read back as the given entry, whatever member follows. -/
structure ReadsMember (text : String) (entry : Entry) : Prop where
  admitted : hasForeign text.toList = false
  reads : ∀ level, 4 * text.toList.length ≤ level → Reads EndsMember (do
      let before ← many markup
      return before ++ [← objectMember (grammar level)]) (' ' :: text.toList) (AreMembers [entry])

/-- A key and a value that is read back verbatim make a property. -/
theorem ReadsVerbatim.member {code : String} (h : ReadsVerbatim code) (key : String) :
    ReadsMember (renderMember key code) (.property key code) :=
  ⟨hasForeign_renderMember h.admitted key, readsBefore_property h.reads key⟩

/-- A text that goes on with a member that has a key and more than a key. -/
def StartsMember (text : List Char) : Prop :=
  ∃ member there, (do
      let before ← many markup
      return before ++ [← objectMember (grammarFor text.length)]).run ⟨0, text⟩ =
        some ([member], there) ∧
    (member.kind = .pair ∨ ∃ role, member.kind = .method role)

/-- A text after a member: the end of the object, or a comma and another member. -/
def FollowsMember (text : List Char) : Prop :=
  (∃ rest, text = ' ' :: '\x7d' :: rest) ∨ ∃ rest, text = ',' :: rest ∧ StartsMember rest

theorem FollowsMember.endsMember {text : List Char} (h : FollowsMember text) : EndsMember text := by
  rcases h with ⟨rest, text⟩ | ⟨rest, text, -⟩
  · exact ⟨rest, .inr text⟩
  · exact ⟨rest, .inl text⟩

theorem ReadsMember.before {text : String} {entry : Entry} (h : ReadsMember text entry) :
    ReadsBefore FollowsMember (text, entry) :=
  fun level enough offset rest followed => h.reads level enough offset rest followed.endsMember

/-! ## Members among properties -/

/-- A text after the value of a property, where all members are properties: the end of the object,
with a comma or without, or a comma and the next property up to its colon. -/
inductive EndsProperty : List Char → Prop
  | close (rest : List Char) : EndsProperty (' ' :: '\x7d' :: rest)
  | comma (rest : List Char) : EndsProperty (',' :: ' ' :: '\x7d' :: rest)
  | next (key : String) (rest : List Char) :
      EndsProperty (',' :: ' ' :: ((renderKey key).toList ++ ':' :: rest))

theorem EndsProperty.endsMember {text : List Char} (h : EndsProperty text) : EndsMember text := by
  cases h with
  | close rest => exact ⟨rest, .inr rfl⟩
  | comma rest => exact ⟨' ' :: '\x7d' :: rest, .inl rfl⟩
  | next key rest => exact ⟨' ' :: ((renderKey key).toList ++ ':' :: rest), .inl rfl⟩

/-- An expression that is read back verbatim as the value of a property among properties. Only
what can stand there need follow it: a comparison is read back, although before other texts its
sign could open type arguments. -/
structure ReadsValue (code : String) : Prop where
  admitted : hasForeign code.toList = false
  reads : ∀ level, 4 * code.toList.length ≤ level →
    Reads EndsProperty ((grammar level).expression Context.inner) (' ' :: code.toList)
      (IsSource code.toList)

theorem ReadsVerbatim.value {code : String} (h : ReadsVerbatim code) : ReadsValue code :=
  ⟨h.admitted, fun level enough offset rest ends => h.reads level enough offset rest ends.endsMember⟩

/-- A key with a source that is read back as the given entry among properties. -/
structure ReadsProperty (member : String × Entry) : Prop where
  keyed : ∃ key code, member.1 = renderMember key code
  admitted : hasForeign member.1.toList = false
  reads : ReadsBefore EndsProperty member

theorem ReadsValue.property {code : String} (h : ReadsValue code) (key : String) :
    ReadsProperty (renderMember key code, .property key code) :=
  ⟨⟨key, code, rfl⟩, hasForeign_renderMember h.admitted key, readsBefore_property h.reads key⟩

/-- A property may follow another one. -/
theorem ReadsProperty.follows {member : String × Entry} (h : ReadsProperty member)
    (rest : List Char) : EndsProperty (',' :: (memberText member ++ rest)) := by
  obtain ⟨key, code, text⟩ := h.keyed
  have opened : memberText member ++ rest =
      ' ' :: ((renderKey key).toList ++ ':' :: (' ' :: code.toList ++ rest)) := by
    simp [memberText, text, renderMember]
  rw [opened]
  exact .next key _

/-! ## Objects of members -/

/-- The text of members between braces, the last with or without a comma. -/
def objectText (member : String × Entry) (members : List (String × Entry))
    (trailing : List Char) : List Char :=
  '\x7b' :: (memberText member ++
    ((members.flatMap fun member => ',' :: memberText member) ++ (trailing ++ ([' '] ++ ['\x7d']))))

variable {member : String × Entry} {members : List (String × Entry)} {trailing : List Char}
  {code : String}

/-- Members between braces are read back as their entries, if each of them is read before the
members behind it. -/
theorem object_written {follows : List Char → Prop} (comma : trailing = [','] ∨ trailing = [])
    (h : code.toList = objectText member members trailing)
    (each : ∀ other ∈ member :: members, ReadsBefore follows other)
    (next : ∀ other ∈ members, ∀ rest, follows rest → follows (',' :: (memberText other ++ rest)))
    (closes : ∀ rest, follows (trailing ++ ([' '] ++ '\x7d' :: rest))) {level : Nat}
    (enough : 4 * code.toList.length ≤ level + 1) (offset : Nat) (rest : List Char) :
    ∃ children, (object (grammar level)).run ⟨offset, code.toList ++ rest⟩ =
        some (⟨.object, offset, code.toList, children⟩, ⟨offset + code.toList.length, rest⟩) ∧
      AreMembers ((member :: members).map Prod.snd) children := by
  have short : ∀ other ∈ member :: members, 4 * other.1.toList.length ≤ level := by
    intro other mem
    have least := length_lt_bracketed memberText mem '\x7b' (trailing ++ ([' '] ++ ['\x7d']))
    rw [← objectText, ← h, memberText, List.length_cons] at least
    omega
  obtain ⟨values, run, all⟩ := object_reads memberText member members
    (fun other mem => each other mem level (short other mem)) next blanks_space comma closes h
    offset rest
  exact ⟨_, run, areMembers_flatten all⟩

private theorem hasForeign_members (comma : trailing = [','] ∨ trailing = [])
    (h : code.toList = objectText member members trailing)
    (admitted : ∀ other ∈ member :: members, hasForeign other.1.toList = false) :
    hasForeign code.toList = false := by
  have text : ∀ other ∈ member :: members, hasForeign (memberText other) = false :=
    fun other mem => by
      rw [memberText, hasForeign_cons, admitted other mem]
      rfl
  rw [h, objectText, hasForeign_cons, hasForeign_append, hasForeign_append,
    text member List.mem_cons_self,
    hasForeign_flatMap fun other mem => text other (List.mem_cons_of_mem _ mem)]
  rcases comma with rfl | rfl <;> rfl

/-- Members between braces are an expression that is read back as an object. -/
theorem readsTree_before {follows : List Char → Prop} (comma : trailing = [','] ∨ trailing = [])
    (h : code.toList = objectText member members trailing)
    (each : ∀ other ∈ member :: members, ReadsBefore follows other)
    (next : ∀ other ∈ members, ∀ rest, follows rest → follows (',' :: (memberText other ++ rest)))
    (closes : ∀ rest, follows (trailing ++ ([' '] ++ '\x7d' :: rest))) {level : Nat}
    (enough : 4 * code.toList.length ≤ level) :
    ReadsTree level code.toList (IsObject code.toList ((member :: members).map Prod.snd)) := by
  obtain ⟨less, rfl⟩ : ∃ less, level = less + 1 :=
    ⟨level - 1, by rw [h, objectText, List.length_cons] at enough; omega⟩
  refine readsTree_object (by rw [h]; rfl) fun offset rest => ?_
  obtain ⟨children, run, members⟩ := object_written comma h each next closes enough offset rest
  exact ⟨_, run, rfl, rfl, members⟩

/-- Members that are read whatever member follows are read between braces. -/
theorem readsTree_members (comma : trailing = [','] ∨ trailing = [])
    (h : code.toList = objectText member members trailing)
    (each : ∀ other ∈ member :: members, ReadsMember other.1 other.2) {level : Nat}
    (enough : 4 * code.toList.length ≤ level) :
    ReadsTree level code.toList (IsObject code.toList ((member :: members).map Prod.snd)) := by
  refine readsTree_before comma h (fun other mem => (each other mem).reads)
    (fun other mem rest _ => ⟨_, .inl rfl⟩) (fun rest => ?_) enough
  rcases comma with rfl | rfl
  · exact ⟨_, .inl rfl⟩
  · exact ⟨_, .inr rfl⟩

/-- Properties are read between braces. -/
theorem readsTree_properties (comma : trailing = [','] ∨ trailing = [])
    (h : code.toList = objectText member members trailing)
    (each : ∀ other ∈ member :: members, ReadsProperty other) {level : Nat}
    (enough : 4 * code.toList.length ≤ level) :
    ReadsTree level code.toList (IsObject code.toList ((member :: members).map Prod.snd)) := by
  refine readsTree_before comma h (fun other mem => (each other mem).reads)
    (fun other mem rest _ => (each other (List.mem_cons_of_mem _ mem)).follows rest)
    (fun rest => ?_) enough
  rcases comma with rfl | rfl
  · exact .comma rest
  · exact .close rest

/-- A text of members between braces that is read as an expression is read as a whole. -/
private theorem readObject?_written (comma : trailing = [','] ∨ trailing = [])
    (h : code.toList = objectText member members trailing)
    (admitted : ∀ other ∈ member :: members, hasForeign other.1.toList = false)
    (reads : ∀ level, 4 * code.toList.length ≤ level → ReadsTree level code.toList
      (IsObject code.toList ((member :: members).map Prod.snd))) :
    readObject? code = some ((member :: members).map Prod.snd) := by
  have token (rest : List Char) : StartsToken (code.toList ++ rest) := by
    rw [h]
    exact ⟨'\x7b', _, rfl, by decide, by decide⟩
  have closed : code.toList = ('\x7b' :: (memberText member ++
      ((members.flatMap fun member => ',' :: memberText member) ++ (trailing ++ [' '])))) ++
        ['\x7d'] := by
    simp [h, objectText]
  have trimmed : Text.trimList code.toList = code.toList :=
    Text.trimList_solid h closed (by decide) (by decide)
  exact readObject?_reads trimmed token (hasForeign_members comma h admitted) reads

/-- A text of properties between braces is read back as the object with their entries. -/
theorem readObject?_properties (comma : trailing = [','] ∨ trailing = [])
    (h : code.toList = objectText member members trailing)
    (each : ∀ other ∈ member :: members, ReadsProperty other) :
    readObject? code = some ((member :: members).map Prod.snd) :=
  readObject?_written comma h (fun other mem => (each other mem).admitted) fun _ enough =>
    readsTree_properties comma h each enough

/-! ## Written objects -/

theorem toList_intercalate (separator member : String) (members : List String) :
    (separator.intercalate (member :: members)).toList =
      member.toList ++ members.flatMap fun member => separator.toList ++ member.toList := by
  induction members generalizing member with
  | nil => simp
  | cons other members ih =>
    rw [String.intercalate_cons_cons, String.toList_append, ih, String.toList_append]
    simp

theorem toList_braced (member : String × Entry) (members : List (String × Entry)) :
    (braced ((member :: members).map Prod.fst)).toList = objectText member members [] := by
  rw [List.map_cons, braced]
  simp only [List.isEmpty_cons, Bool.false_eq_true, if_false, String.toList_append,
    toList_intercalate]
  simp [objectText, memberText, List.flatMap_map]

def propertyMembers (entries : List (String × String)) : List (String × Entry) :=
  entries.map fun entry => (renderMember entry.1 entry.2, .property entry.1 entry.2)

def properties (entries : List (String × String)) : List Entry :=
  entries.map fun entry => .property entry.1 entry.2

theorem snd_propertyMembers (entries : List (String × String)) :
    (propertyMembers entries).map Prod.snd = properties entries := by
  rw [propertyMembers, List.map_map]
  rfl

theorem readsProperty_propertyMembers {entries : List (String × String)}
    (values : ∀ entry ∈ entries, ReadsValue entry.2) :
    ∀ member ∈ propertyMembers entries, ReadsProperty member := by
  intro member mem
  obtain ⟨entry, listed, rfl⟩ := List.mem_map.mp mem
  exact (values entry listed).property entry.1

/-- Members between braces are read back as the object with their entries. -/
theorem readObject?_braced (each : ∀ other ∈ member :: members, ReadsMember other.1 other.2) :
    readObject? (braced ((member :: members).map Prod.fst)) =
      some ((member :: members).map Prod.snd) :=
  have text := toList_braced member members
  readObject?_written (.inr rfl) text (fun other mem => (each other mem).admitted) fun _ enough =>
    readsTree_members (.inr rfl) text each enough

theorem readObject?_bracedProperties (each : ∀ other ∈ member :: members, ReadsProperty other) :
    readObject? (braced ((member :: members).map Prod.fst)) =
      some ((member :: members).map Prod.snd) :=
  readObject?_properties (.inr rfl) (toList_braced member members) each

/-- Properties between braces are themselves read back verbatim, as the value of a member of
another object. -/
theorem readsVerbatim_braced (each : ∀ other ∈ member :: members, ReadsProperty other) :
    ReadsVerbatim (braced ((member :: members).map Prod.fst)) := by
  have text := toList_braced member members
  have admitted := hasForeign_members (.inr rfl) text fun other mem => (each other mem).admitted
  exact ReadsAs.readsVerbatim admitted fun level enough =>
    readsAs_of_object (readsTree_properties (.inr rfl) text each enough)

theorem renderObject_eq (entries : List (String × String)) :
    renderObject entries = braced ((propertyMembers entries).map Prod.fst) := by
  rw [renderObject, propertyMembers, List.map_map]
  rfl

theorem readObject?_renderObject {entry : String × String} {entries : List (String × String)}
    (values : ∀ other ∈ entry :: entries, ReadsValue other.2) :
    readObject? (renderObject (entry :: entries)) = some (properties (entry :: entries)) := by
  rw [renderObject_eq, ← snd_propertyMembers]
  exact readObject?_bracedProperties (readsProperty_propertyMembers values)

/-- A written object is itself read back verbatim, as the value of a member of another. -/
theorem readsVerbatim_renderObject {entry : String × String} {entries : List (String × String)}
    (values : ∀ other ∈ entry :: entries, ReadsValue other.2) :
    ReadsVerbatim (renderObject (entry :: entries)) := by
  rw [renderObject_eq]
  exact readsVerbatim_braced (readsProperty_propertyMembers values)

/-! ## White space around values -/

private theorem isWhiteSpace_digit {c : Char} (h : c.isDigit = true) :
    Text.isWhiteSpace c = false := by
  have bounds : 48 ≤ c.toNat ∧ c.toNat ≤ 57 := by
    simpa [Char.isDigit, Char.le_def, UInt32.le_iff_toNat_le] using h
  simp only [Text.isWhiteSpace, Bool.or_eq_false_iff, Bool.and_eq_false_iff,
    decide_eq_false_iff_not, beq_eq_false_iff_ne]
  omega

private theorem isWhiteSpace_number (number : Json.Number) :
    ∀ c ∈ number.text.toList, Text.isWhiteSpace c = false := by
  have marks : ∀ c ∈ numeralMarks, Text.isWhiteSpace c = false := forall_mem_of_all (by decide)
  intro c mem
  exact (chars_number number c mem).elim isWhiteSpace_digit (marks c)

/-- The compact text of a value has no white space at its ends. -/
theorem trimList_compact (value : Json) :
    Text.trimList value.compact.toList = value.compact.toList := by
  unfold Json.compact
  match value with
  | .null | .bool true | .bool false | .array [] | .object [] =>
    rw [Json.render]
    decide
  | .number number =>
    rw [Json.render]
    exact Text.trimList_of_forall (isWhiteSpace_number number)
  | .string text =>
    have quoted : (Json.render .compact 0 (.string text)).toList =
        ('"' :: text.toList.flatMap Json.escapeChar) ++ ['"'] := by
      rw [Json.render, Json.toList_quote, List.cons_append]
    exact Text.trimList_solid quoted quoted (by decide) (by decide)
  | .array (item :: items) =>
    have opened := toList_array 0 item items
    have closed := opened.trans (List.append_assoc _ _ _ ▸ (List.cons_append ..).symm)
    exact Text.trimList_solid opened closed (by decide) (by decide)
  | .object (member :: members) =>
    have opened := toList_object 0 member members
    have closed := opened.trans (List.append_assoc _ _ _ ▸ (List.cons_append ..).symm)
    exact Text.trimList_solid opened closed (by decide) (by decide)

theorem trim_compact (value : Json) : Text.trim value.compact = value.compact := by
  rw [Text.trim, trimList_compact, String.ofList_toList]

/-! ## Constants read back -/

/-- The compact text of a value without fractions is read as the value, in which of repeated
members the last one counts. -/
theorem literalValue?_compact {value : Json} (integral : value.isIntegral = true) :
    literalValue? value.compact = some value.settled := by
  obtain ⟨c, rest, opened, -, blank, slash⟩ := render_opens 0 value
  have token (rest : List Char) : StartsToken (value.compact.toList ++ rest) := by
    rw [Json.compact, opened]
    exact ⟨c, _, rfl, blank, slash⟩
  obtain ⟨tree, read, data⟩ := readExpression?_reads (trimList_compact value) token
    (admitted value 0) fun level enough =>
      readsCompact value 0 level (by unfold Json.compact at enough; omega)
  rw [literalValue?, read]
  exact data.constant integral

/-- The text of a value is a script that stands for the same value: nothing is lost in any string or
key, and members keep their order. Every escape that the text may hold is one of a string in a
script as well. -/
theorem compact_restored {value : Json} (integral : value.isIntegral = true)
    (settled : value.isSettled = true) : literalValue? value.compact = some value := by
  rw [literalValue?_compact integral, Json.settled_of_isSettled value settled]

/-- A product with keys and texts that need quotes and escapes. -/
def oddProduct : Json :=
  .object [("if", .array [.null, .bool true, .number (.integer (-9223372036854775808))]),
    ("", .object [("\"quoted\"", .string "// \x00\n\u2028\\"), ("7", .object [])]),
    ("größe", .number (.integer 18446744073709551615))]

theorem oddProduct_restored :
    oddProduct.isIntegral = true ∧ oddProduct.isSettled = true ∧
      literalValue? oddProduct.compact = some oddProduct := by
  have integral : oddProduct.isIntegral = true := by decide
  have settled : oddProduct.isSettled = true := by decide
  exact ⟨integral, settled, compact_restored integral settled⟩

/-! ## Objects of constants -/

/-- The object without members, as it is written, is read as that. -/
theorem readObject?_nil : readObject? (renderObject []) = some [] := by
  have text : (renderObject []).toList = ['\x7b', '\x7d'] := rfl
  refine readObject?_reads (by rw [text]; decide) (fun rest => ?_) (by rw [text]; decide)
    fun level enough => ?_
  · rw [text]
    exact ⟨'\x7b', _, rfl, by decide, by decide⟩
  · rw [text] at enough ⊢
    obtain ⟨less, rfl⟩ : ∃ less, level = less + 1 :=
      ⟨level - 1, by rw [List.length_cons] at enough; omega⟩
    exact readsTree_object rfl fun offset rest =>
      ⟨_, object_empty _ offset rest, rfl, rfl, areMembers_nil⟩

/-- An object that is written from keys and the texts of values is read as exactly these keys and
texts, one by one, whatever the keys are and however often one is repeated. Keys that are no names
are quoted, and no text of a value goes on behind its comma. -/
theorem members_restored (entries : List (String × Json)) :
    readObject? (renderObject (entries.map fun entry => (entry.1, entry.2.compact))) =
      some (entries.map fun entry => .property entry.1 entry.2.compact) := by
  cases entries with
  | nil => exact readObject?_nil
  | cons entry entries =>
    have values : ∀ written ∈ (entry :: entries).map fun entry => (entry.1, entry.2.compact),
        ReadsValue written.2 := by
      intro written mem
      obtain ⟨other, -, rfl⟩ := List.mem_map.mp mem
      exact (readsVerbatim_compact other.2).value
    rw [List.map_cons] at values ⊢
    rw [readObject?_renderObject values, properties, List.map_cons, List.map_map]
    rfl

end BlockLoom.Script
