import BlockLoom.Proofs.Component.State
import BlockLoom.Proofs.Script.Behind
import BlockLoom.Proofs.Text.Blank

/-!
The code that is left when the state has been split off. A declaration that is a statement of
the program can be cut out of it, unless the lines before it and behind it then join: what is
left is well-formed code if the statements before the declaration are still read up to what
stands behind it. A declaration that is part of another statement is cut out of that statement,
and what is left of it need not be one.
-/

namespace BlockLoom.State

open Script Script.Scan

/-- White space is blank in a script as well, the control character for the next line aside. -/
theorem isBlank_of_isWhiteSpace {c : Char} (h : Text.isWhiteSpace c = true)
    (line : c.toNat ≠ 0x85) : isBlank c = true := by
  simp only [Text.isWhiteSpace, isBlank, Bool.or_eq_true, Bool.and_eq_true, decide_eq_true_eq,
    beq_iff_eq] at h ⊢
  omega

/-- Code of which the declaration of the state, if there is any, ends with a statement of the
program, and of which the part before it is, in what is left, still read as statements up to the
part behind it. -/
def CutAtStatements (code : String) : Prop :=
  ∀ found, findDeclaration? none (readProgram code.toList) = some found →
    ∃ before statement after, (readProgram code.toList).children = before ++ statement :: after ∧
      found.stop = statement.stop ∧ ∀ left, (split code).2 = some left →
        LeadsTo left.toList (Text.trimList (code.toList.drop found.stop))

section Left

variable {code left : String} (fits : (readProgram code.toList).isBroken = false)
  (solid : Text.trimList code.toList = code.toList) (plain : ∀ c ∈ code.toList, c.toNat ≠ 0x85)

/-- What is left of code that declares a state are the parts before and behind the declaration. -/
private theorem toList_left {found : Declaration} (h : (split code).2 = some left)
    (declares : findDeclaration? none (readProgram code.toList) = some found) :
    left.toList = Text.trimList (Text.trimList (code.toList.take found.start) ++
      '\n' :: Text.trimList (code.toList.drop found.stop)) := by
  unfold split at h
  dsimp only at h
  rw [declares] at h
  dsimp only at h
  rw [Text.toList_of_trimmed? h, String.toList_ofList]

private theorem mem_of_mem_trimList {c : Char} {text : List Char} (mem : c ∈ Text.trimList text) :
    c ∈ text :=
  ((List.rdropWhile_prefix _ _).sublist.trans (List.dropWhile_sublist _)).subset mem

/-- What is left of code holds no character that the code does not hold, line breaks aside. -/
private theorem hasForeign_left (admitted : hasForeign code.toList = false)
    {found : Declaration} (h : (split code).2 = some left)
    (declares : findDeclaration? none (readProgram code.toList) = some found) :
    hasForeign left.toList = false := by
  rw [hasForeign, List.contains_eq_mem, decide_eq_false_iff_not] at admitted ⊢
  intro mem
  rw [toList_left h declares] at mem
  rcases List.mem_append.mp (mem_of_mem_trimList mem) with mem | mem
  · exact admitted (List.mem_of_mem_take (mem_of_mem_trimList mem))
  · rcases List.mem_cons.mp mem with line | mem
    · exact absurd line (by decide)
    · exact admitted (List.mem_of_mem_drop (mem_of_mem_trimList mem))

include solid plain

/-- Behind a declaration there are only blanks before the part that is left. -/
private theorem blanks_behind (count : Nat) : ∃ blanks, Blanks blanks ∧
    code.toList.drop count = blanks ++ Text.trimList (code.toList.drop count) := by
  have suffix : code.toList.drop count <:+ code.toList := List.drop_suffix _ _
  refine ⟨_, fun c mem => ?_, (Text.takeWhile_append_trimList solid suffix).symm⟩
  have inside := suffix.subset (List.takeWhile_subset _ mem)
  exact isBlank_of_isWhiteSpace (List.mem_takeWhile_imp mem) (plain c inside)

include fits

/-- Well-formed code leaves well-formed code if the declaration of its state is cut out between
statements. Two statements that come to stand together may join where no semicolon parts them, so
that those before the declaration must be known to end where they did. -/
theorem isBroken_left (cut : CutAtStatements code) (h : (split code).2 = some left) :
    (readProgram left.toList).isBroken = false := by
  cases declares : findDeclaration? none (readProgram code.toList) with
  | none =>
    rw [Stateless.split declares] at h
    rw [Text.toList_of_trimmed? h, solid]
    exact fits
  | some found =>
    obtain ⟨before, statement, after, children, stop, leads⟩ := cut found declares
    obtain ⟨blanks, hb, behind⟩ := blanks_behind solid plain found.stop
    have admitted := (readProgram?_eq_some (isBroken_readProgram.mp fits)).1
    rw [stop] at behind leads
    exact isBroken_behind fits children hb behind (hasForeign_left admitted h declares)
      (leads left h)

/-- Code that starts with the statement that declares its state is cut between statements,
whatever stands behind that statement. -/
theorem cutAtStatements_first
    (first : ∀ found, findDeclaration? none (readProgram code.toList) = some found →
      ∃ statement others, (readProgram code.toList).children = statement :: others ∧
        found.start = 0 ∧ found.stop = statement.stop) : CutAtStatements code := by
  intro found declares
  obtain ⟨statement, others, children, start, stop⟩ := first found declares
  refine ⟨[], statement, others, children, stop, fun left h => ?_⟩
  have line : Text.isWhiteSpace '\n' = true := by decide
  have nothing : Text.trimList [] = [] := rfl
  obtain ⟨blanks, hb, behind⟩ := blanks_behind solid plain found.stop
  rw [toList_left h declares, start, List.take_zero, nothing, List.nil_append,
    Text.trimList_blank line, Text.trimList_trimList]
  rw [stop] at behind ⊢
  exact leadsTo_behind fits (children.trans (List.nil_append _).symm) hb behind

end Left

/-- Code that declares its state between two other statements. -/
def openedCode : String := "const total = 1;\nuseState({ shown: true });\nrefresh(total)"

def openedLeft : String := "const total = 1;\nrefresh(total)"

set_option maxRecDepth 100000 in
private theorem leadsTo_openedLeft : LeadsTo openedLeft.toList "refresh(total)".toList := by
  have banged : hashBang.run (Cursor.skip ⟨0, openedLeft.toList⟩) =
      some ((), ⟨0, openedLeft.toList⟩) := rfl
  have first : ((grammar (4 * openedLeft.toList.length + 8)).statement.run
      ⟨0, openedLeft.toList⟩).map (fun read => (read.2.offset, read.2.rest)) =
        some (16, "\nrefresh(total)".toList) := by
    decide +kernel
  obtain ⟨⟨tree, next⟩, read, reached⟩ := Option.map_eq_some_iff.mp first
  refine ⟨_, next, banged, .more read (.done next), ?_⟩
  obtain ⟨offset, rest⟩ := next
  cases reached
  rfl

set_option maxRecDepth 100000 in
private theorem split_openedCode : (split openedCode).2 = some openedLeft := by decide +kernel

set_option maxRecDepth 100000 in
private theorem cutAtStatements_openedCode : CutAtStatements openedCode := by
  have ends : (findDeclaration? none (readProgram openedCode.toList)).map Declaration.stop =
      some 43 := by
    decide +kernel
  have statements : (readProgram openedCode.toList).children.map Tree.stop = [16, 43, 58] := by
    decide +kernel
  have behind : Text.trimList (openedCode.toList.drop 43) = "refresh(total)".toList := by
    decide +kernel
  intro found declares
  rw [declares] at ends
  obtain stop : found.stop = 43 := Option.some.inj ends
  obtain ⟨before, others, children, -, tail⟩ := List.map_eq_cons_iff.mp statements
  obtain ⟨statement, after, rfl, same, -⟩ := List.map_eq_cons_iff.mp tail
  refine ⟨[before], statement, after, children, stop.trans same.symm, fun left split => ?_⟩
  obtain rfl := Option.some.inj (split_openedCode.symm.trans split)
  rw [stop, behind]
  exact leadsTo_openedLeft

set_option maxRecDepth 100000 in
theorem isBroken_left_openedCode :
    (readProgram openedCode.toList).isBroken = false ∧
    Text.trimList openedCode.toList = openedCode.toList ∧
    (∀ c ∈ openedCode.toList, c.toNat ≠ 0x85) ∧ CutAtStatements openedCode ∧
    (split openedCode).2 = some openedLeft ∧
    (readProgram openedLeft.toList).isBroken = false := by
  have fits : (readProgram openedCode.toList).isBroken = false := by decide +kernel
  have solid : Text.trimList openedCode.toList = openedCode.toList := by decide +kernel
  have plain : ∀ c ∈ openedCode.toList, c.toNat ≠ 0x85 := forall_mem_of_all (by decide +kernel)
  exact ⟨fits, solid, plain, cutAtStatements_openedCode, split_openedCode,
    isBroken_left fits solid plain cutAtStatements_openedCode split_openedCode⟩

def heldCode : String := "const s = useState({a: 1});"

set_option maxRecDepth 100000 in
/-- What is left of a statement around a declaration need not be a statement. -/
theorem heldCode_broken : (readProgram heldCode.toList).isBroken = false ∧
    (split heldCode).2 = some "const s =\n;" ∧
    (readProgram "const s =\n;".toList).isBroken = true := by
  refine ⟨?_, ?_, ?_⟩ <;> decide +kernel

set_option maxRecDepth 100000 in
/-- Nor need two statements that come to stand one behind the other still be two. -/
example : (readProgram "a\nuseState({b: 1});\n/x/.test(c)".toList).isBroken = false ∧
    (split "a\nuseState({b: 1});\n/x/.test(c)").2 = some "a\n/x/.test(c)" ∧
    (readProgram "a\n/x/.test(c)".toList).isBroken = true := by
  decide +kernel

end BlockLoom.State
