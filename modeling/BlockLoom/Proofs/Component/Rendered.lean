import BlockLoom.Proofs.Component.State
import BlockLoom.Proofs.Script.Function

/-!
States that are written and split off again. Of each member it is asked alone that its code
is what its kind says: one expression, or one member with its own key, wherever in an object
it stands. The object made of them then declares just these members, in the same order, and
the code behind the declaration is left as it was.
-/

namespace BlockLoom.Script

open Scan

/-! ## What a member is made of -/

/-- A source that is read as one expression with the given property as the value of a member. -/
def IsValue (yields : Tree → Prop) (code : String) : Prop :=
  ∀ level, 4 * code.toList.length ≤ level →
    Reads FollowsMember ((grammar level).expression Context.inner) (' ' :: code.toList) yields

/-- A source that is read as the one member of the given entry. -/
def IsMember (entry : Entry) (code : String) : Prop :=
  ReadsBefore FollowsMember (code, entry)

theorem ReadsVerbatim.isValue {code : String} (h : ReadsVerbatim code) :
    IsValue (IsSource code.toList) code :=
  fun level enough offset rest followed => h.reads level enough offset rest followed.endsMember

/-- An arrow from a name to an expression is one function. -/
theorem isValue_arrow {name code : String} (named : isName name = true)
    (free : name ∉ operandWords ++ valueWords)
    (body : ∀ level, 4 * code.toList.length ≤ level → ReadsAs level code.toList) {d : Char}
    {tail : List Char} (opened : code.toList = d :: tail) (solid : isBlank d = false)
    (slash : d ≠ '/') (brace : d ≠ '\x7b') :
    IsValue (IsFunction (name ++ " => " ++ code).toList) (name ++ " => " ++ code) := by
  have text : (name ++ " => " ++ code).toList =
      name.toList ++ (' ' :: '=' :: '>' :: ' ' :: code.toList) := by simp
  rw [text]
  intro level enough offset rest followed
  rw [text] at enough ⊢
  simp only [List.length_append, List.length_cons] at enough
  obtain ⟨less, rfl⟩ : ∃ less, level = less + 1 := ⟨level - 1, by omega⟩
  have free : String.ofList name.toList ∉ operandWords ++ valueWords := by
    rwa [String.ofList_toList]
  have short : 4 * code.toList.length ≤ less := by omega
  exact readsTree_arrow (isWord_of_isName named) free (body less short) (fun _ source => source.fits)
    opened solid slash brace [' '] blanks_space offset rest followed.endsMember.ends

/-- A function as a value makes a member that is a function. -/
theorem IsPair.function {key : String} {code : List Char} {member : Tree}
    (pair : IsPair key (IsFunction code) member) :
    AreMembers [.function key (String.ofList code)] [member] := by
  refine pair.areMembers (fun _ function => function.fits) fun value function => ?_
  rw [if_pos (by simpa using function.kind), Tree.source, function.text]

end BlockLoom.Script

namespace BlockLoom.State

open Script Script.Scan

/-! ## Members -/

/-- A member of which the code is what its kind says: one expression that is no function, one
function, or one method or getter with the member's key. -/
def IsWellFormed (entry : String × StateMember) : Prop :=
  match entry.2.kind with
  | .property => IsValue (IsSource entry.2.code.toList) entry.2.code
  | .function => IsValue (IsFunction entry.2.code.toList) entry.2.code
  | .method => IsMember (.method entry.1 entry.2.code) entry.2.code
  | .getter => IsMember (.getter entry.1 entry.2.code) entry.2.code

/-- A state with well-formed members is read back as it is written. -/
theorem readable_of_wellFormed {state : State} (wellFormed : ∀ entry ∈ state, IsWellFormed entry) :
    Readable state := by
  refine List.forall_mem_map.mpr fun entry mem => ?_
  have h := wellFormed entry mem
  obtain ⟨key, code, kind⟩ := entry
  cases kind with
  | property => exact readsBefore_property h key
  | function =>
    exact readsBefore_pair h key fun _ pair => String.ofList_toList (s := code) ▸ pair.function
  | method => exact h
  | getter => exact h

/-! ## Reading back -/

/-- A state with well-formed members is found in the code that it is written to, together with the
code that is to be left. Members of all kinds may stand side by side, since each is read up to the
comma before the next key. -/
theorem split_rendered (spelling : Spelling) {state : State} (declared : state ≠ [])
    (distinct : Fields.Distinct state) (wellFormed : ∀ entry ∈ state, IsWellFormed entry)
    {onMount : Option String} (trimmed : ∀ left ∈ onMount, Text.trimmed? left = some left) :
    ∃ text, render spelling state onMount = some text ∧ split text = (state, onMount) := by
  have kept : onMount.bind Text.trimmed? = onMount := by
    cases onMount with
    | none => rfl
    | some left =>
      rw [Option.bind_some]
      exact trimmed left rfl
  have back := (readable_of_wellFormed wellFormed).readsBack declared
  obtain ⟨text, written, read⟩ := split_written spelling declared distinct back onMount
  exact ⟨text, written, by rw [read, kept]⟩

def mixedState : State :=
  [("count", ⟨"0", .property⟩), ("same", ⟨"x => x", .function⟩),
    ("reset", ⟨"reset() \x7b\x7d", .method⟩), ("total", ⟨"get total() \x7b\x7d", .getter⟩),
    ("is open", ⟨"true", .property⟩)]

private theorem wellFormed_mixedState : ∀ entry ∈ mixedState, IsWellFormed entry := by
  have count : Json.compact (.number (.integer 0)) = "0" := by decide
  have isOpen : Json.compact (.bool true) = "true" := by decide
  have body (level : Nat) (enough : 4 * "x".toList.length ≤ level) : ReadsAs level "x".toList := by
    have one : "x".toList.length = 1 := rfl
    obtain ⟨less, rfl⟩ : ∃ less, level = less + 1 := ⟨level - 1, by omega⟩
    have read := readsAs_properties less (isWord_of_isName (by decide : isName "x" = true))
      (by decide) (List.forall_mem_nil _)
    rwa [behindDots, List.flatMap_nil, List.append_nil] at read
  have same := isValue_arrow (by decide : isName "x" = true) (by decide) body
    (rfl : "x".toList = ['x']) (by decide) (by decide) (by decide)
  have reset := (readsMember_emptyMethod (by decide : isName "reset" = true)
    (by decide)).before
  have total := (readsMember_emptyGetter (by decide : isName "total" = true)).before
  simp only [mixedState, List.forall_mem_cons]
  refine ⟨?_, same, reset, total, ?_, List.forall_mem_nil _⟩
  · exact count ▸ (readsVerbatim_compact (.number (.integer 0))).isValue
  · exact isOpen ▸ (readsVerbatim_compact (.bool true)).isValue

theorem split_mixedState : mixedState ≠ [] ∧ Fields.Distinct mixedState ∧
    (∀ entry ∈ mixedState, IsWellFormed entry) ∧ Text.trimmed? "reset()" = some "reset()" ∧
    ∀ spelling, ∃ text, render spelling mixedState (some "reset()") = some text ∧
      split text = (mixedState, some "reset()") := by
  have declared : mixedState ≠ [] := List.cons_ne_nil _ _
  have distinct : Fields.Distinct mixedState := by decide
  have trimmed : Text.trimmed? "reset()" = some "reset()" := by decide
  refine ⟨declared, distinct, wellFormed_mixedState, trimmed, fun spelling => ?_⟩
  apply split_rendered
  · exact declared
  · exact distinct
  · exact wellFormed_mixedState
  · rintro _ ⟨⟩
    exact trimmed

end BlockLoom.State
