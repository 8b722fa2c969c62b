import BlockLoom.Proofs.Script.Written

/-!
String literals as values and as keys. What a literal is decoded to is its value as a
constant, the name of a key that it is written as, and the key of a member of an object.
-/

namespace BlockLoom.Script

open Scan

namespace StringLiteral

variable (literal : StringLiteral)

/-! ## Values -/

theorem trimmed : Text.trimList literal.source.toList = literal.text := by
  have solid : ∀ quote ∈ quotes, Text.isWhiteSpace quote = false := forall_quotes rfl rfl
  have closed : literal.text = (literal.quote :: bodyText literal.parts) ++ [literal.quote] := rfl
  rw [source, String.toList_ofList]
  exact Text.trimList_solid rfl closed (solid _ literal.quoted) (solid _ literal.quoted)

/-- A literal without a null character is read as a whole. -/
theorem readExpression?_source (admitted : hasForeign literal.text = false) :
    ∃ tree, readExpression? literal.source = some tree ∧
      constant? tree = literal.read.map Json.string := by
  rw [readExpression?, trimmed]
  refine readWhole_reads literal.token admitted fun level enough => ?_
  obtain ⟨less, rfl⟩ : ∃ less, level = less + 1 :=
    ⟨level - 1, by rw [text, List.length_cons] at enough; omega⟩
  exact (literal.readsTree less).mono (fun _ read => read.2) [] blanks_nil

/-- A literal is accepted just if it does not hold the null character itself. -/
theorem isSome_readExpression?_iff :
    (readExpression? literal.source).isSome ↔ hasForeign literal.text = false := by
  constructor
  · intro accepted
    by_contra foreign
    rw [readExpression?, trimmed, readWhole, if_pos (eq_true_of_ne_false foreign)] at accepted
    cases accepted
  · intro admitted
    obtain ⟨tree, read, _⟩ := literal.readExpression?_source admitted
    rw [read]
    rfl

theorem literalValue?_source (admitted : hasForeign literal.text = false) :
    literalValue? literal.source = literal.read.map Json.string := by
  obtain ⟨tree, read, constant⟩ := literal.readExpression?_source admitted
  rw [literalValue?, read]
  exact constant

/-! ## Keys -/

/-- A member of an object with a literal as its key. -/
def member (code : String) : String :=
  literal.source ++ ": " ++ code

def entry (code : String) : Entry :=
  match literal.read with
  | some key => .property key code
  | none => .unsupported (literal.member code)

variable {literal}

theorem entry_eq_iff {code value : String} :
    literal.entry code = .property value code ↔ literal.read = some value := by
  rw [entry]
  cases literal.read <;> simp

/-- A literal and a value that is read back verbatim make a member. -/
theorem readsMember {code : String} (admitted : hasForeign literal.text = false)
    (verbatim : ReadsVerbatim code) : ReadsMember (literal.member code) (literal.entry code) := by
  have text : (literal.member code).toList = literal.text ++ ':' :: (' ' :: code.toList) := by
    simp [member, source]
  refine ⟨?_, fun level enough offset rest ends => ?_⟩
  · simp [text, hasForeign_append, hasForeign_cons, admitted, verbatim.admitted]
  · have short : 4 * code.toList.length ≤ level := by
      rw [text] at enough
      simp only [List.length_append, List.length_cons] at enough
      omega
    obtain ⟨tree, value, isSource⟩ := verbatim.reads level short
      (offset + [' '].length + literal.text.length + 1) rest ends
    have key := literal.memberKey_scanned (grammar level) (offset + [' '].length)
      (':' :: ((' ' :: code.toList) ++ rest))
    have read := pair_scanned blanks_space literal.token literal.unmarked literal.dots offset key
      value
    rw [text]
    refine ⟨_, read, ?_, ?_⟩
    · have value : (tree.kind == .function) = false := by simpa using isSource.value
      have written : String.ofList (literal.text ++ ':' :: (' ' :: code.toList)) =
          literal.member code := by rw [← text, String.ofList_toList]
      rw [List.map_singleton, Entry.ofMember, entry]
      simp only [keyName?, value, Tree.source, isSource.text, String.ofList_toList, written]
      cases literal.read <;> rfl
    · simp [Tree.anyBroken, Tree.isBroken, isSource.fits]

/-- A member with a literal as its key is read between any other members. -/
theorem readObject?_member (literal : StringLiteral) {before after : List (String × Entry)}
    {code : String} (admitted : hasForeign literal.text = false)
    (others : ∀ other ∈ before ++ after, ReadsMember other.1 other.2)
    (verbatim : ReadsVerbatim code) :
    readObject? (braced (before.map Prod.fst ++ literal.member code :: after.map Prod.fst)) =
      some (before.map Prod.snd ++ literal.entry code :: after.map Prod.snd) := by
  have this := readsMember admitted verbatim
  have each : ∀ other ∈ before ++ (literal.member code, literal.entry code) :: after,
      ReadsMember other.1 other.2 := by
    intro other mem
    rcases List.mem_append.mp mem with mem | mem
    · exact others other (List.mem_append_left _ mem)
    · rcases List.mem_cons.mp mem with rfl | mem
      · exact this
      · exact others other (List.mem_append_right _ mem)
  have texts : before.map Prod.fst ++ literal.member code :: after.map Prod.fst =
      (before ++ (literal.member code, literal.entry code) :: after).map Prod.fst := by simp
  have entries : before.map Prod.snd ++ literal.entry code :: after.map Prod.snd =
      (before ++ (literal.member code, literal.entry code) :: after).map Prod.snd := by simp
  rw [texts, entries]
  generalize whole : before ++ (literal.member code, literal.entry code) :: after = members at each
  cases members with
  | nil => simp at whole
  | cons first members => exact readObject?_braced each

end StringLiteral

/-- String literals are decoded as what they stand for, as values and as keys, just if their
parts are direct. For every literal that is accepted and stands for the code units of a text,
that text is its value, the name of every key that it is written as, and the key of its member
in an object with any other members, if no escape is half of a surrogate pair or an octal
escape with another value than its first digit, and no token takes a character behind it; and
none of these holds if one is. -/
theorem stringLiteral_read_iff (literal : StringLiteral)
    (accepted : (readExpression? literal.source).isSome) (value : String)
    (meant : utf16 value.toList = literal.units) :
    (literalValue? literal.source = some (.string value) ↔ AreDirect literal.parts) ∧
    (∀ (g : Grammar) (offset : Nat) (rest : List Char), ∃ key,
      (memberKey g).run ⟨offset, literal.source.toList ++ rest⟩ =
          some (key, ⟨offset + literal.source.toList.length, rest⟩) ∧
        (keyName? key = some value ↔ AreDirect literal.parts)) ∧
    ∀ (before after : List (String × Entry)) (code : String),
      (∀ other ∈ before ++ after, ReadsMember other.1 other.2) → ReadsVerbatim code →
        (readObject? (braced (before.map Prod.fst ++ literal.member code :: after.map Prod.fst)) =
          some (before.map Prod.snd ++ .property value code :: after.map Prod.snd) ↔
            AreDirect literal.parts) := by
  have admitted := literal.isSome_readExpression?_iff.mp accepted
  rw [← literal.read_eq_some_iff meant]
  refine ⟨?_, fun g offset rest => ?_, fun before after code others verbatim => ?_⟩
  · rw [literal.literalValue?_source admitted]
    cases literal.read <;> simp
  · rw [StringLiteral.source, String.toList_ofList]
    exact ⟨_, literal.memberKey_scanned g offset rest, Iff.rfl⟩
  · rw [literal.readObject?_member admitted others verbatim, Option.some.injEq,
      ← @StringLiteral.entry_eq_iff literal code value]
    simp

def greeting : StringLiteral where
  quote := '\''
  parts := [.char 'c', .escape (.hex '6' '1'), .escape (.quad '0' '0' 'e' '9'),
    .escape (.control 't' '\t'), .escape (.codePoint "1F600".toList), .escape (.self '\''),
    .escape (.continuation ['\r', '\n']), .escape (.octal ['0']), .char '9']
  quoted := by decide
  body := by decide

theorem greeting_read :
    greeting.source = "'c\\x61\\u00e9\\t\\u\x7b1F600\x7d\\'\\\r\n\\09'" ∧
      literalValue? greeting.source = some (.string "caé\t😀'\x009") ∧
      readObject? (braced [renderMember "shown" "true", greeting.member "true"]) =
        some [.property "shown" "true", .property "caé\t😀'\x009" "true"] := by
  have accepted : (readExpression? greeting.source).isSome :=
    greeting.isSome_readExpression?_iff.mpr (by decide)
  have meant : utf16 "caé\t😀'\x009".toList = greeting.units := by decide
  have direct : AreDirect greeting.parts := by decide
  have verbatim : ReadsVerbatim "true" := by
    have shown := readsVerbatim_compact (.bool true)
    rwa [Json.compact, Json.render] at shown
  have others : ∀ other ∈ [(renderMember "shown" "true", Entry.property "shown" "true")] ++ [],
      ReadsMember other.1 other.2 := by
    intro other mem
    obtain rfl := List.mem_singleton.mp mem
    exact verbatim.member "shown"
  obtain ⟨value, _, object⟩ := stringLiteral_read_iff greeting accepted _ meant
  exact ⟨rfl, value.mpr direct, (object _ [] _ others verbatim).mpr direct⟩

def surrogatePair : StringLiteral where
  quote := '\''
  parts := [.escape (.quad 'D' '8' '3' 'D'), .escape (.quad 'D' 'E' '0' '0')]
  quoted := by decide
  body := by decide

def octalLetter : StringLiteral where
  quote := '\''
  parts := [.escape (.octal ['1', '0', '1'])]
  quoted := by decide
  body := by decide

def askedSeparator : StringLiteral where
  quote := '\''
  parts := [.escape (.self '?'), .char (Char.ofNat 0x2028)]
  quoted := by decide
  body := by decide

/-- A pair of surrogates is not decoded, an octal escape is decoded to a digit, and a separator
behind an escape is lost. -/
theorem escapes_misread :
    (surrogatePair.source = "'\\uD83D\\uDE00'" ∧ utf16 "😀".toList = surrogatePair.units ∧
      literalValue? surrogatePair.source = none) ∧
    (octalLetter.source = "'\\101'" ∧ utf16 "A".toList = octalLetter.units ∧
      literalValue? octalLetter.source = some (.string "1")) ∧
    (utf16 ['?', Char.ofNat 0x2028] = askedSeparator.units ∧
      literalValue? askedSeparator.source = some (.string "?")) := by
  refine ⟨⟨rfl, by decide, ?_⟩, ⟨rfl, by decide, ?_⟩, by decide, ?_⟩
  · rw [surrogatePair.literalValue?_source (by decide)]
    rfl
  · rw [octalLetter.literalValue?_source (by decide)]
    rfl
  · rw [askedSeparator.literalValue?_source (by decide)]
    rfl

end BlockLoom.Script
