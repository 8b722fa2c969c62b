import BlockLoom.Proofs.Script.Scan
import BlockLoom.Script.Program
import Mathlib.Data.List.TakeWhile

/-!
Whole scripts. A script that starts with a statement is read as a tree that starts with
it, whether the rest of the script is well formed or has to be salvaged: salvaging never
fails, and takes a statement where it can read one.
-/

namespace BlockLoom.Script

open Scan

/-! ## Blanks and comments -/

private theorem comment?_pos {text : List Char} {length : Nat} (h : comment? text = some length) :
    0 < length ∧ 0 < text.length := by
  rw [comment?.eq_def] at h
  split at h
  · cases h
    exact ⟨Nat.succ_pos _, Nat.succ_pos _⟩
  · obtain ⟨count, -, rfl⟩ := Option.map_eq_some_iff.mp h
    exact ⟨Nat.succ_pos _, Nat.succ_pos _⟩
  · cases h

theorem triviaLength_drop {fuel : Nat} {text : List Char} (enough : text.length ≤ fuel) :
    (text.drop (triviaLength fuel text)).takeWhile isBlank = [] ∧
      comment? (text.drop (triviaLength fuel text)) = none := by
  induction fuel generalizing text with
  | zero =>
    rw [List.length_eq_zero_iff.mp (Nat.le_zero.mp enough)]
    exact ⟨rfl, rfl⟩
  | succ fuel ih =>
    have after : text.drop (text.takeWhile isBlank).length = text.dropWhile isBlank := by
      have dropped := @List.drop_left _ (text.takeWhile isBlank) (text.dropWhile isBlank)
      rwa [List.takeWhile_append_dropWhile] at dropped
    have short := List.length_dropWhile_le isBlank text
    rw [triviaLength]
    simp only [after]
    split
    · next length found =>
      obtain ⟨positive, filled⟩ := comment?_pos found
      have rest := @ih ((text.dropWhile isBlank).drop length) (by
        rw [List.length_drop]
        omega)
      rwa [← List.drop_drop, ← List.drop_drop, after]
    · next none =>
      rw [after]
      exact ⟨List.takeWhile_eq_nil_iff.mpr (List.dropWhile_get_zero_not _ _), none⟩

theorem skip_skip (here : Cursor) : here.skip.skip = here.skip := by
  obtain ⟨solid, uncommented⟩ := triviaLength_drop (Nat.le_refl here.rest.length)
  have none (fuel : Nat) (text : List Char) (solid : text.takeWhile isBlank = [])
      (uncommented : comment? text = none) : triviaLength fuel text = 0 := by
    cases fuel with
    | zero => rfl
    | succ fuel =>
      rw [triviaLength]
      simp only [solid, List.length_nil, List.drop_zero, uncommented]
  have still : triviaLength here.skip.rest.length here.skip.rest = 0 := none _ _ solid uncommented
  rw [Cursor.skip, still]
  rfl

private theorem triviaLength_nil (fuel : Nat) : triviaLength fuel [] = 0 := by
  cases fuel <;> rfl

/-- Blanks and comments are counted alike, however often they may be counted. -/
theorem triviaLength_enough {fuel more : Nat} {text : List Char} (enough : text.length ≤ fuel)
    (enough' : text.length ≤ more) : triviaLength fuel text = triviaLength more text := by
  induction fuel generalizing more text with
  | zero => rw [List.length_eq_zero_iff.mp (Nat.le_zero.mp enough), triviaLength_nil, triviaLength_nil]
  | succ fuel ih =>
    cases more with
    | zero =>
      rw [List.length_eq_zero_iff.mp (Nat.le_zero.mp enough'), triviaLength_nil, triviaLength_nil]
    | succ more =>
      rw [triviaLength, triviaLength]
      split
      · next length found =>
        obtain ⟨positive, filled⟩ := comment?_pos found
        have shorter : ((text.drop (text.takeWhile isBlank).length).drop length).length <
            text.length := by
          rw [List.length_drop, List.length_drop] at *
          omega
        rw [ih (by omega) (by omega : _ ≤ more)]
      · rfl

/-- Blanks before a text do not change what its next token is. -/
theorem skip_rest_blanks {blanks : List Char} (hb : Blanks blanks) (text : List Char)
    (offset offset' : Nat) :
    (Cursor.skip ⟨offset, blanks ++ text⟩).rest = (Cursor.skip ⟨offset', text⟩).rest := by
  have counted (fuel : Nat) : triviaLength (fuel + 1) (blanks ++ text) =
      blanks.length + triviaLength (fuel + 1) text := by
    have all : (blanks ++ text).takeWhile isBlank = blanks ++ text.takeWhile isBlank :=
      List.takeWhile_append_of_pos hb
    have after : (blanks ++ text).drop (blanks.length + (text.takeWhile isBlank).length) =
        text.drop (text.takeWhile isBlank).length := List.drop_length_add_append _
    rw [triviaLength, triviaLength]
    simp only [all, List.length_append, after]
    split
    · simp only [Nat.add_assoc]
    · rfl
  have short : text.length ≤ (blanks ++ text).length + 1 := by
    rw [List.length_append]
    omega
  simp only [Cursor.skip, Cursor.advance]
  rw [triviaLength_enough (Nat.le_refl _) (Nat.le_succ (blanks ++ text).length), counted,
    triviaLength_enough (Nat.le_refl _) short, List.drop_length_add_append]

/-! ## Scanners that never fail -/

theorem orElse_total {α : Type} {first second : Scan α} {here : Cursor}
    (h : ∃ found, second.run here = some found) :
    ∃ found, (first <|> second).run here = some found := by
  cases read : first.run here with
  | none => rwa [run_second _ read]
  | some found => exact ⟨found, run_first _ read⟩

theorem manyUpTo_total {α : Type} (scan : Scan α) (count : Nat) (here : Cursor) :
    ∃ values there, (manyUpTo count scan).run here = some (values, there) := by
  induction count generalizing here with
  | zero => exact ⟨[], here, rfl⟩
  | succ count ih =>
    unfold manyUpTo
    cases read : scan.run here with
    | none =>
      exact ⟨[], here, by rw [run_then (optional?_stuck read)]; rfl⟩
    | some found =>
      obtain ⟨value, next⟩ := found
      obtain ⟨values, there, others⟩ := ih next
      exact ⟨value :: values, there, by
        rw [run_then (optional?_reads read)]
        exact run_then others⟩

/-- A scanner that reads something first is repeated from there. -/
theorem many_first {α : Type} {scan : Scan α} {here there : Cursor} {value : α}
    (h : scan.run here = some (value, there)) :
    ∃ values stop, (many scan).run here = some (value :: values, stop) := by
  obtain ⟨values, stop, others⟩ := manyUpTo_total scan here.rest.length there
  refine ⟨values, stop, ?_⟩
  unfold many
  rw [run_then (run_get _)]
  unfold manyUpTo
  rw [run_then (optional?_reads h)]
  exact run_then others

/-! ## Scripts that are not well formed -/

/-- There is a token wherever there is text. -/
theorem anyToken_total (g : Grammar) {here : Cursor} (filled : here.skip.rest ≠ []) :
    ∃ found, (anyToken g).run here = some found := by
  obtain ⟨c, rest, text⟩ := List.exists_cons_of_ne_nil filled
  unfold anyToken
  rw [run_then (run_look here), text]
  have token : ∃ found, (string <|> template g <|> number <|> leaf .other (do let _ ← word) <|>
      leaf .other (pass 1)).run here.skip = some found :=
    orElse_total (orElse_total (orElse_total (orElse_total ⟨_, rfl⟩)))
  obtain ⟨⟨tree, there⟩, read⟩ := token
  exact ⟨_, run_then read⟩

/-- Where nothing can be read a token is skipped. -/
private theorem skipped_total (g : Grammar) {here : Cursor} (filled : here.skip.rest ≠ []) :
    ∃ found, (leaf .broken (do let _ ← anyToken g)).run here.skip = some found := by
  obtain ⟨⟨c, there⟩, read⟩ := @anyToken_total g here.skip (by rwa [skip_skip])
  unfold leaf spanned
  rw [run_then (run_trivia _), skip_skip, run_then (run_get _)]
  exact ⟨_, run_then (run_then (run_then read))⟩

theorem salvage_total (g : Grammar) (fuel : Nat) (state : Salvage) (here : Cursor) :
    ∃ trees there, (salvage g fuel state).run here = some (trees, there) := by
  induction fuel generalizing state here with
  | zero => exact ⟨[], here, rfl⟩
  | succ fuel ih =>
    unfold salvage
    rw [run_then (run_look here)]
    split
    · exact ⟨[], here.skip, rfl⟩
    · next c rest text =>
      obtain ⟨⟨skipped, there⟩, token⟩ := @skipped_total g here (by rw [text]; simp)
      dsimp only
      generalize (if (!state.inStatements) = true then _ else _ : Scan (Tree × Position)) = read
      have tried : (if (c == ')' || c == ']' || c == '\x7d') = true then pure none
          else optional? read : Scan (Option (Tree × Position))).run here.skip =
            some (none, here.skip) ∨
          ∃ found next, (if (c == ')' || c == ']' || c == '\x7d') = true then pure none
            else optional? read : Scan (Option (Tree × Position))).run here.skip =
              some (some found, next) := by
        split
        · exact .inl rfl
        · cases found : read.run here.skip with
          | none => exact .inl (optional?_stuck found)
          | some result => exact .inr ⟨_, _, optional?_reads found⟩
      rcases tried with none | ⟨⟨tree, position⟩, next, some⟩
      · obtain ⟨others, stop, rest⟩ := ih (state.pass c) there
        exact ⟨skipped :: others, stop,
          (run_then none).trans ((run_then token).trans (run_then rest))⟩
      · obtain ⟨others, stop, rest⟩ := ih ⟨state.expected, position⟩ next
        exact ⟨tree :: others, stop, (run_then some).trans (run_then rest)⟩

/-- A script that is not well formed is salvaged from its first statement on. -/
theorem salvage_first {g : Grammar} {fuel : Nat} {c : Char} {rest : List Char} {tree : Tree}
    {there : Cursor} (start : isWordStart c = true)
    (h : g.statement.run ⟨0, c :: rest⟩ = some (tree, there)) :
    ∃ others stop, (salvage g (fuel + 1) Salvage.first).run ⟨0, c :: rest⟩ =
      some (tree :: others, stop) := by
  have closes : (c == ')' || c == ']' || c == '\x7d') = false := by
    have other : ∀ mark ∈ [')', ']', '\x7d'], (c == mark) = false := fun mark mem =>
      beq_eq_false_iff_ne.mpr (ne_of_isWordStart start (forall_mem_of_all (by decide) mark mem))
    simp only [List.forall_mem_cons, List.not_mem_nil, false_implies, implies_true, and_true]
      at other
    simp [other]
  obtain ⟨others, stop, all⟩ := salvage_total g fuel ⟨[], .fresh⟩ there
  refine ⟨others, stop, ?_⟩
  unfold salvage
  rw [run_then (run_look _), skip_token 0 (startsToken_word _ start)]
  dsimp only
  rw [closes]
  refine (run_then (optional?_reads (run_first _ (run_then (run_first _ h))))).trans ?_
  exact run_then all

/-! ## Scripts -/

/-- A script that starts with a statement is read as a tree that starts with it, whether the rest is
well formed or has to be salvaged. -/
theorem readProgram_first {c : Char} {rest : List Char} {tree : Tree} {there : Cursor}
    (start : isWordStart c = true)
    (h : (grammarFor (c :: rest).length).statement.run ⟨0, c :: rest⟩ = some (tree, there)) :
    ∃ kind source others, readProgram (c :: rest) = ⟨kind, 0, source, tree :: others⟩ ∧
      kind ≠ .call ∧ kind ≠ .expressionStatement := by
  have token : StartsToken (c :: rest) := startsToken_word _ start
  have unbanged : hashBang.run ⟨0, c :: rest⟩ = some ((), ⟨0, c :: rest⟩) := by
    unfold hashBang
    rw [run_then (run_get _)]
    split
    · next heq => exact absurd (List.cons.inj heq).1 (ne_of_isWordStart start (by decide))
    · rfl
  obtain ⟨others, stop, all⟩ := @salvage_first _ (c :: rest).length _ _ _ _ start h
  unfold readProgram
  cases read : readProgram? (c :: rest) with
  | none =>
    have salvaged : (spanned .broken (do
        hashBang
        salvage (grammarFor (c :: rest).length) ((c :: rest).length + 1) Salvage.first)).run
          ⟨0, c :: rest⟩ =
            some (⟨.broken, 0, (c :: rest).take stop.offset, tree :: others⟩, stop) := by
      unfold spanned
      rw [run_then (run_trivia _), skip_token 0 token, run_then (run_get _)]
      exact run_then ((run_then unbanged).trans all)
    simp only [salvaged]
    exact ⟨_, _, _, rfl, Kind.noConfusion, Kind.noConfusion⟩
  | some program =>
    obtain ⟨statements, next, many⟩ := many_first h
    obtain ⟨marks, last, marked⟩ := manyUpTo_total markup (next.rest.length + 1) next
    have markups : (Scan.many markup).run next = some (marks, last) := by
      unfold Scan.many
      rw [run_then (run_get _)]
      exact marked
    unfold readProgram? at read
    dsimp only at read
    split at read
    · cases read
    · obtain ⟨⟨whole, stop⟩, ran, rfl⟩ := Option.map_eq_some_iff.mp read
      unfold spanned at ran
      rw [run_then (run_trivia _), skip_token 0 token, run_then (run_get _), StateT.run_bind,
        run_then unbanged, run_then many, run_then markups, run_then (run_look _)] at ran
      split at ran
      · cases ran
        exact ⟨_, _, _, rfl, Kind.noConfusion, Kind.noConfusion⟩
      · cases ran

end BlockLoom.Script
